import Recognizer.Json.Recognize
import Recognizer.Proofs.Json.Nesting
import Recognizer.Proofs.Json.Rfc8259

/-!
# What is recognized

The rules of the grammar take what can be read up to the end of a value (`Start.exists_result`). So
documents are recognized exactly (`parse_document`), and values, arrays and objects are recognized
at the start of a text, numbers if nothing extends them (`parse_leading`).
-/

namespace Recognizer.Json

open Text

variable {o : Options} {s : Start} {as bs c r t : List Char} {q : Position} {v : Verdict}

/-- The entry point of a rule. -/
def Start.entry : Start → Entry
  | value => .value
  | compound .square => .array
  | compound .curly => .object
  | document => .document

/-- Try a text against an entry point. -/
def Entry.parse (o : Options) (entry : Entry) (t : List Char) : Except GrammarError Verdict :=
  (recognize o entry false (.whole 0 t)).map Outcome.verdict

/-- The outcome is the one that the pattern answers with, in the grammar that it comes with. -/
lemma Entry.recognize_of_answers {entry : Entry} {m : Matcher} (hm : entry.matcher o false = .ok m)
    (h : m.pattern.Answers m.scope.definitions t v) {input : Slice} (hi : input.Spells t) :
    recognize o entry false input = .ok (v.outcome input input) :=
  (recognize_eq_ok_iff hm).2 (h.yields input hi)

/-- The verdict of an entry point is that of its pattern. -/
lemma Entry.parse_of_answers {entry : Entry} {m : Matcher} (hm : entry.matcher o false = .ok m)
    (h : m.pattern.Answers m.scope.definitions t v) : entry.parse o t = .ok v := by
  have spells := Slice.spells_whole 0 t
  rw [parse, recognize_of_answers hm h spells]
  exact congrArg Except.ok (Verdict.verdict_outcome h.splits spells)

/-- Try a text against a rule. -/
def parse (o : Options) (s : Start) (t : List Char) : Except GrammarError Verdict :=
  s.entry.parse o t

/-- Where reading starts. -/
def Start.position : Start → Position
  | value => .value false []
  | compound b => .opening b
  | document => .value false []

/-- May there be whitespace around the outermost value? -/
def Start.padded (o : Options) : Start → Bool
  | document => o.surroundingWhitespace
  | _ => false

/-- The pattern of a rule, as an entry point has it. -/
def Start.pattern (o : Options) : Start → Pattern Link
  | value => .refer (.strong ⟨0, 0⟩)
  | compound b => .refer (.strong (linkOf b).rule)
  | document => documentOf o (.refer (.strong ⟨0, 0⟩))

/-- The grammar that the patterns refer to. -/
def definitions (o : Options) : Link → Resolution Link :=
  (Scope.ofRoots (finished o) [0]).definitions

/-- Each of them keeps the one table of the grammar. -/
lemma Start.keeps_pattern (o : Options) (s : Start) : (s.pattern o).keeps = [0] := by
  cases s with
  | value => rfl
  | compound b => cases b <;> rfl
  | document =>
    rw [pattern, documentOf]
    split <;> rfl

/-- The entry point of a rule has the finished grammar. -/
lemma Start.matcher_entry (o : Options) (s : Start) :
    s.entry.matcher o false = .ok ⟨s.pattern o, finished o⟩ := by
  cases s with
  | value => rfl
  | compound b => cases b <;> rfl
  | document => rfl

/-- Its pattern answers alike in the scope that it keeps. -/
lemma Start.answers_scope (h : (s.pattern o).Answers (definitions o) t v) :
    (s.pattern o).Answers (Matcher.scope ⟨s.pattern o, finished o⟩).definitions t v := by
  rw [definitions, ← s.keeps_pattern o] at h
  exact h

/-- The outcome is the one that the pattern of the rule answers with. -/
lemma recognize_eq (h : (s.pattern o).Answers (definitions o) t v) {input : Slice}
    (hi : input.Spells t) : recognize o s.entry false input = .ok (v.outcome input input) :=
  Entry.recognize_of_answers (s.matcher_entry o) (s.answers_scope h) hi

/-- The verdict on a text is what the pattern of the rule answers. -/
lemma parse_eq (h : (s.pattern o).Answers (definitions o) t v) : parse o s t = .ok v :=
  Entry.parse_of_answers (s.matcher_entry o) (s.answers_scope h)

/-- What becomes of a text: a leading part is taken that ends at the end of a value, or the text is
refused where nothing more of it can be read. -/
def Start.Result (o : Options) (s : Start) (t : List Char) : Verdict → Prop
  | .taken as bs => t = as ++ bs ∧ s.Sentence o as ∧ (s = .document → bs = []) ∧
      ∃ q, s.position.Halts o (s.padded o) as bs q ∧ q.Ends []
  | .refused e => ∃ q, s.position.Stops o (s.padded o) t q e.offset ∧
      (s ≠ .document → ¬ q.Ends []) ∧
      ∀ q', s.position.read o (s.padded o) t = some q' → ¬ q'.Ends []

open Position

/-- Where reading stops short of the end of a value, it does not get there. -/
lemma Position.Stops.not_ends {padded : Bool} {p q q' : Position} {n : Nat}
    (h : p.Stops o padded t q n) (ends : ¬ q.Ends []) (hr : read o padded p t = some q') :
    ¬ q'.Ends [] := by
  obtain ⟨as, bs, rfl, halts, _⟩ := h
  obtain rfl := halts.rest_eq_nil hr
  rw [List.append_nil] at hr
  cases halts.read.symm.trans hr
  exact ends

/-- Nothing comes behind the outermost value, except whitespace where it is allowed. -/
lemma stepBehind_nil {padded : Bool} {c : Char}
    (h : CharClass.whitespace.accepts c = true → allowsBlank padded [] = false) :
    stepBehind padded [] c = none := by
  rw [stepBehind]
  split
  · next hc => rw [h hc, if_neg Bool.false_ne_true]
  · rfl

/-- Every text has a result by the rule for values. -/
lemma exists_result_value (o : Options) (t : List Char) :
    ∃ v, (Start.value.pattern o).Answers (definitions o) t v ∧ Start.value.Result o t v := by
  have starts : Starts o false false [] t := fun c _ => step_value (fun _ => rfl) nofun
  obtain ⟨v, ha, tracks⟩ := follows_value (defines_finished o) (.strong ⟨0, 0⟩) rfl t starts
  refine ⟨v, ha, ?_⟩
  cases tracks with
  | taken hr h =>
    obtain ⟨generated, settled⟩ := h
    refine ⟨rfl, generated, nofun, _, ⟨hr, fun c hc => ?_⟩, settled.ends⟩
    exact (settled.step hc).trans (stepBehind_nil fun _ => rfl)
  | refused stops ends => exact ⟨_, stops, fun _ => ends, fun q' hr => stops.not_ends ends hr⟩

/-- And by those for arrays and objects. -/
lemma exists_result_compound (o : Options) (b : Bracket) (t : List Char) :
    ∃ v, ((Start.compound b).pattern o).Answers (definitions o) t v ∧
      (Start.compound b).Result o t v := by
  have start : step o false (.opening b) b.opening = some (inside true b []) := if_pos rfl
  obtain ⟨v, ha, tracks⟩ := follows_compound (defines_finished o) (.strong (linkOf b).rule) rfl t
    (waits_opening b) start fun c _ ne => if_neg ne
  refine ⟨v, ha, ?_⟩
  cases tracks with
  | taken hr h =>
    obtain ⟨generated, rfl⟩ := h
    refine ⟨rfl, generated, nofun, _, ⟨hr, fun c _ => ?_⟩, .inl rfl⟩
    exact stepBehind_nil fun _ => rfl
  | refused stops ends => exact ⟨_, stops, fun _ => ends, fun q' hr => stops.not_ends ends hr⟩

/-- What is skipped around the value of a document. -/
def skip (padded : Bool) : List (Pattern Link) :=
  if padded then [whitespace] else []

/-- A document is a value between what is skipped, and the end. -/
lemma documentOf_eq (o : Options) (value : Pattern Link) : documentOf o value =
    .concat (skip o.surroundingWhitespace ++
      value :: (skip o.surroundingWhitespace ++ [.endOfInput])) := by
  rw [documentOf, skip]
  split <;> rfl

/-- All whitespace is skipped where it may be, and none where it may not. -/
lemma exists_skip (definitions : Link → Resolution Link) (padded : Bool) (cs : List Char) :
    ∃ w bs, cs = w ++ bs ∧ IsBlank w ∧ (w = [] ∨ padded = true) ∧
      (∀ c ∈ bs.head?, CharClass.whitespace.accepts c = true → allowsBlank padded [] = false) ∧
      ∀ ps v, (Course.parts ps).Answers definitions bs v →
        (Course.parts (skip padded ++ ps)).Answers definitions cs (v.behind w) := by
  cases padded with
  | false =>
    refine ⟨[], cs, rfl, isBlank_nil, .inl rfl, fun _ _ _ => rfl, fun ps v h => ?_⟩
    rwa [Verdict.behind_nil]
  | true =>
    obtain ⟨w, bs, rfl, hw, hbs, ha⟩ := exists_blank definitions cs
    refine ⟨w, bs, rfl, hw, .inr rfl, fun c hc h => ?_, fun ps v => Course.answers_parts_cons ha⟩
    cases h.symm.trans (hbs c hc)

/-- A value between what is skipped is a document. -/
lemma isDocument_append {w v w' : List Char} (hw : IsBlank w) (hw' : IsBlank w')
    (hp : w = [] ∨ o.surroundingWhitespace = true)
    (hp' : w' = [] ∨ o.surroundingWhitespace = true) (hv : Generates o .value v) :
    IsDocument o (w ++ (v ++ w')) := by
  by_cases padded : o.surroundingWhitespace = true
  · exact .padded padded hw hv hw'
  · obtain rfl := hp.resolve_right padded
    obtain rfl := hp'.resolve_right padded
    rw [List.nil_append, List.append_nil]
    exact .plain hv

/-- Every text has a result by the rule for documents. -/
lemma exists_result_document (o : Options) (t : List Char) :
    ∃ v, (Start.document.pattern o).Answers (definitions o) t v ∧ Start.document.Result o t v := by
  obtain ⟨w, bs, rfl, hw, hp, hbs, skipped⟩ :=
    exists_skip (definitions o) o.surroundingWhitespace t
  have starts : Starts o o.surroundingWhitespace false [] bs := fun c hc =>
    step_value (hbs c hc) nofun
  have blank : read o o.surroundingWhitespace (.value false []) w = some (.value false []) := by
    rcases hp with rfl | padded
    · rfl
    · exact read_value_blank hw padded
  obtain ⟨v, ha, tracks⟩ := follows_value (defines_finished o) (.strong ⟨0, 0⟩) rfl bs starts
  rw [Start.pattern, documentOf_eq]
  cases tracks with
  | refused stops ends =>
    have stops := stops.behind blank
    exact ⟨_, (skipped _ _ (Course.refuses_parts_cons ha _)).concat,
      _, stops, nofun, fun q' hr => stops.not_ends ends hr⟩
  | @taken as bs q hr h =>
    obtain ⟨generated, settled⟩ := h
    obtain ⟨w', bs, rfl, hw', hp', hbs', skipped'⟩ :=
      exists_skip (definitions o) o.surroundingWhitespace bs
    obtain ⟨q', hr', settled'⟩ := settled.read_blank o hw' hp'
    have halts : Halts o o.surroundingWhitespace (.value false []) (w ++ (as ++ w')) bs q' := by
      refine ⟨?_, fun c hc => (settled'.step hc).trans (stepBehind_nil (hbs' c hc))⟩
      rw [read_append_of_read blank, read_append_of_read hr, hr']
    have split : w ++ (as ++ (w' ++ bs)) = w ++ (as ++ w') ++ bs := by
      simp only [List.append_assoc]
    have answers (v : Verdict) (hv : (Course.parts [.endOfInput]).Answers (definitions o) bs v) :=
      skipped _ _ (Course.answers_parts_cons ha (skipped' _ v hv))
    rw [split] at answers ⊢
    -- Only the end of the input is missing now.
    cases bs with
    | nil =>
      have taken := answers _ (Course.answers_parts_cons Pattern.answers_endOfInput
        (Course.answers_parts_nil []))
      refine ⟨.taken (w ++ (as ++ w')) [], ?_, rfl, isDocument_append hw hw' hp hp' generated,
        fun _ => rfl, q', halts, settled'.ends⟩
      simpa only [Verdict.behind, List.append_nil] using taken.concat
    | cons c bs =>
      have refused := answers _ (Course.refuses_parts_cons
        (Pattern.refuses_endOfInput (List.cons_ne_nil c bs)) [])
      refine ⟨_, refused.concat, _, ⟨_, _, rfl, halts, ?_⟩, nofun, fun q'' hr => ?_⟩
      · rw [settled'.ends.backlog, byteLength_append, byteLength_append]
        show _ = 0 + byteLength w' + byteLength as + byteLength w + 0
        omega
      · cases halts.rest_eq_nil hr

/-- The pattern of a rule answers every text by the result. -/
lemma Start.exists_answers (o : Options) (s : Start) (t : List Char) :
    ∃ v, (s.pattern o).Answers (definitions o) t v ∧ s.Result o t v := by
  cases s with
  | value => exact exists_result_value o t
  | compound b => exact exists_result_compound o b t
  | document => exact exists_result_document o t

/-- Every text has a result. -/
theorem Start.exists_result (o : Options) (s : Start) (t : List Char) :
    ∃ v, parse o s t = .ok v ∧ s.Result o t v := by
  obtain ⟨v, ha, hv⟩ := s.exists_answers o t
  exact ⟨v, parse_eq ha, hv⟩

/-- An outcome is the result that it says of the text. -/
lemma Start.result_of_recognize {input : Slice} {out : Outcome} (hi : input.Spells t)
    (h : recognize o s.entry false input = .ok out) :
    s.Result o t out.verdict ∧ out = out.verdict.outcome input input := by
  obtain ⟨v, ha, result⟩ := s.exists_answers o t
  cases (recognize_eq ha hi).symm.trans h
  rw [Verdict.verdict_outcome ha.splits hi]
  exact ⟨result, rfl⟩

/-- A document is read up to the end of a value. -/
lemma IsDocument.read (h : IsDocument o t) : ∃ q, Position.read o o.surroundingWhitespace
    (.value false []) t = some q ∧ q.Ends [] := by
  cases h with
  | plain hv =>
    obtain ⟨q, hr, hq⟩ := hv.reads o.surroundingWhitespace false []
    exact ⟨q, hr, ends_of_after_or hq⟩
  | padded padded hw hv hw' =>
    obtain ⟨q, hr, hq⟩ := hv.reads o.surroundingWhitespace false []
    obtain ⟨q', hr', hq'⟩ := (ends_of_after_or hq).read_blank o hw' (.inr padded)
    have allowed : allowsBlank o.surroundingWhitespace [] = true := padded
    refine ⟨q', ?_, hq'⟩
    rw [read_append_of_read (read_value_blank hw allowed), read_append_of_read hr, hr']

/-- A text that is derived from a rule and cannot be extended by what comes behind it. -/
def Start.Accepts (o : Options) : Start → List Char → List Char → Prop
  | value, c, r => Generates o .value c ∧ (IsNumber c → NumberEnds c r)
  | compound b, c, _ => Generates o (.compound b) c
  | document, c, r => IsDocument o c ∧ r = []

/-- A number ends where no further character is read as its own. -/
lemma numberEnds_iff (hc : IsNumber c)
    (h : Position.read o false (.value false []) c = some q) :
    NumberEnds c r ↔ ∀ d ∈ r.head?, step o false q d = none := by
  obtain ⟨place, final, describes, hr⟩ := read_value_number o false false [] hc
  cases h.symm.trans hr
  rw [describes.numberEnds_iff final]
  refine forall₂_congr fun d _ => ?_
  rw [step]
  cases place.next d with
  | none => simp [final, stepBehind_nil fun _ => rfl]
  | some place' => simp

/-- What a rule accepts is read, and nothing behind it. -/
lemma Start.Accepts.halts (h : s.Accepts o c r) :
    ∃ q, s.position.Halts o (s.padded o) c r q ∧ q.Ends [] := by
  have after (d : Char) : stepBehind false [] d = none := stepBehind_nil fun _ => rfl
  cases s with
  | value =>
    obtain ⟨generated, ends⟩ := h
    obtain ⟨q, hr, rfl | ⟨number, hq⟩⟩ := generated.reads false false []
    · exact ⟨_, ⟨hr, fun d _ => after d⟩, .inl rfl⟩
    · exact ⟨q, ⟨hr, (numberEnds_iff number hr).1 (ends number)⟩, hq⟩
  | compound b =>
    obtain ⟨t, rfl, hr⟩ := Generates.reads h false
    have start : step o false (.opening b) b.opening = some (inside true b []) := if_pos rfl
    exact ⟨_, ⟨(read_cons start t).trans (hr []), fun d _ => after d⟩, .inl rfl⟩
  | document =>
    obtain ⟨generated, rfl⟩ := h
    obtain ⟨q, hr, hq⟩ := generated.read
    exact ⟨q, ⟨hr, nofun⟩, hq⟩

/-- Reading stops behind what is accepted. -/
lemma Start.Accepts.of_halts (h : s.Accepts o c r)
    (halts : s.position.Halts o (s.padded o) as bs q) (split : as ++ bs = c ++ r) :
    as = c ∧ bs = r ∧ q.Ends [] := by
  obtain ⟨q', halts', ends⟩ := h.halts
  obtain ⟨rfl, rfl, rfl⟩ := halts.unique halts' split
  exact ⟨rfl, rfl, ends⟩

/-- A text is accepted in one way at most. -/
lemma Start.Accepts.unique {c' r' : List Char} (h : s.Accepts o c r) (h' : s.Accepts o c' r')
    (e : c ++ r = c' ++ r') : c = c' ∧ r = r' := by
  obtain ⟨q, halts, _⟩ := h.halts
  obtain ⟨hc, hr, _⟩ := h'.of_halts halts e
  exact ⟨hc, hr⟩

/-- What is taken is accepted. -/
lemma Start.Result.accepts (h : s.Result o t (.taken c r)) : t = c ++ r ∧ s.Accepts o c r := by
  obtain ⟨rfl, sentence, rest, q, halts, _⟩ := h
  refine ⟨rfl, ?_⟩
  cases s with
  | value => exact ⟨sentence, fun number => (numberEnds_iff number halts.read).2 halts.stuck⟩
  | compound b => exact sentence
  | document => exact ⟨sentence, rest rfl⟩

/-- What is refused cannot be split. -/
lemma Start.Result.not_accepts {e : Rejection} (h : s.Result o (c ++ r) (.refused e)) :
    ¬ s.Accepts o c r := by
  intro accepts
  obtain ⟨q, ⟨as, bs, split, halts, _⟩, ends, unread⟩ := h
  obtain ⟨rfl, rfl, ends'⟩ := accepts.of_halts halts split.symm
  by_cases document : s = .document
  · subst document
    obtain ⟨_, rfl⟩ := accepts
    rw [List.append_nil] at unread
    exact unread q halts.read ends'
  · exact ends document ends'

/-- The texts that are taken are the accepted ones. -/
lemma parse_eq_taken : parse o s t = .ok (.taken c r) ↔ t = c ++ r ∧ s.Accepts o c r := by
  obtain ⟨v, hv, result⟩ := s.exists_result o t
  rw [hv]
  constructor
  · intro h
    cases h
    exact result.accepts
  · rintro ⟨rfl, accepts⟩
    cases v with
    | taken c' r' =>
      obtain ⟨split, accepts'⟩ := result.accepts
      obtain ⟨rfl, rfl⟩ := accepts.unique accepts' split
      rfl
    | refused e => exact absurd accepts result.not_accepts

/-- Those that have no accepted part are refused. -/
lemma parse_eq_refused :
    (∃ e, parse o s t = .ok (.refused e)) ↔ ¬ ∃ c r, t = c ++ r ∧ s.Accepts o c r := by
  obtain ⟨v, hv, result⟩ := s.exists_result o t
  rw [hv]
  cases v with
  | taken c r =>
    refine iff_of_false ?_ (not_not_intro ⟨c, r, result.accepts⟩)
    rintro ⟨e, h⟩
    cases h
  | refused e =>
    refine iff_of_true ⟨e, rfl⟩ ?_
    rintro ⟨c, r, rfl, accepts⟩
    exact result.not_accepts accepts

/-- A text is refused where reading halts before the end of a value. -/
lemma refused_of_halts (h : s.position.Halts o (s.padded o) as bs q) (ends : ¬ q.Ends []) :
    ∃ e, parse o s (as ++ bs) = .ok (.refused e) := by
  rw [parse_eq_refused]
  rintro ⟨c, r, split, accepts⟩
  obtain ⟨_, _, ends'⟩ := accepts.of_halts h split
  exact ends ends'

/-- So is one that breaks off in a number. -/
lemma refused_at_place {place : NumberPlace} (waits : place.isFinal = false)
    (hr : Position.read o false (.value false []) as = some (.number place []))
    (hb : ∀ d ∈ bs.head?, place.next d = none) :
    ∃ e, parse o .value (as ++ bs) = .ok (.refused e) := by
  have halts : Start.value.position.Halts o (Start.value.padded o) as bs (.number place []) :=
    ⟨hr, fun d hd => step_number_eq_none waits (hb d hd)⟩
  exact refused_of_halts halts (waits_number waits).not_ends

/-- A point behind an integer calls for a digit. -/
lemma parse_point (hn : IsNumber c) (plain : ¬ ('.' ∈ c ∨ 'e' ∈ c ∨ 'E' ∈ c))
    (hr : ∀ d ∈ r.head?, CharClass.digit.accepts d = false) :
    ∃ e, parse o .value (c ++ '.' :: r) = .ok (.refused e) := by
  obtain ⟨place, final, describes, read⟩ := read_value_number o false false [] hn
  rw [← describes.point] at plain
  have next : place.next '.' = some .point := by
    cases place with
    | zero | integer => rfl
    | fraction => exact absurd (.inl rfl) plain
    | exponent => exact absurd (.inr rfl) plain
    | minus | point | mark | sign => cases final
  have point : Position.read o false (.value false []) (c ++ ['.']) = some (.number .point []) := by
    rw [read_append_of_read read, read_singleton, step_number next]
  have stuck : ∀ d ∈ r.head?, NumberPlace.point.next d = none := by
    intro d hd
    rw [NumberPlace.next, hr d hd]
    rfl
  have refused := refused_at_place rfl point stuck
  rwa [List.append_assoc] at refused

/-- An exponent mark calls for a digit, maybe behind a sign. -/
lemma parse_mark {mark : Char} (hn : IsNumber c) (plain : ¬ ('e' ∈ c ∨ 'E' ∈ c))
    (hm : mark = 'e' ∨ mark = 'E')
    (hr : ∀ sign rest, IsSign sign → r = sign ++ rest →
      ∀ d ∈ rest.head?, CharClass.digit.accepts d = false) :
    ∃ e, parse o .value (c ++ mark :: r) = .ok (.refused e) := by
  obtain ⟨place, final, describes, read⟩ := read_value_number o false false [] hn
  rw [← describes.mark] at plain
  have before : place.BeforeMark := by
    cases place with
    | zero => exact .inl (.inl rfl)
    | integer => exact .inl (.inr rfl)
    | fraction => exact .inr rfl
    | exponent => exact absurd rfl plain
    | minus | point | mark | sign => cases final
  have marked : Position.read o false (.value false []) (c ++ [mark]) =
      some (.number .mark []) := by
    rw [read_append_of_read read, read_singleton, step_number (before.next hm)]
  rcases head_cases (fun c => c = '+' ∨ c = '-') r with ⟨sign, rest, rfl, hs⟩ | other
  · have signed : Position.read o false (.value false []) (c ++ [mark] ++ [sign]) =
        some (.number .sign []) := by
      rw [read_append_of_read marked, read_singleton,
        step_number (by rw [NumberPlace.next, if_pos hs])]
    have stuck : ∀ d ∈ rest.head?, NumberPlace.sign.next d = none := by
      intro d hd
      rw [NumberPlace.next, hr [sign] rest (.singleton hs) rfl d hd]
      rfl
    have refused := refused_at_place rfl signed stuck
    rwa [List.append_assoc, List.append_assoc] at refused
  · have stuck : ∀ d ∈ r.head?, NumberPlace.mark.next d = none := by
      intro d hd
      rw [NumberPlace.next, if_neg (other d hd), hr [] r .absent rfl d hd]
      rfl
    have refused := refused_at_place rfl marked stuck
    rwa [List.append_assoc] at refused

/-- A document is taken if and only if it is derived, and then as a whole. With all options on,
these are the texts of RFC 8259. -/
theorem parse_document (o : Options) (t : List Char) :
    ((∃ c r, parse o .document t = .ok (.taken c r)) ↔ IsDocument o t) ∧
    (parse o .document t = .ok (.taken t []) ↔ IsDocument o t) ∧
    (IsDocument .rfc8259 t ↔ Rfc8259.IsText t) := by
  have whole : IsDocument o t → parse o .document t = .ok (.taken t []) := fun h =>
    parse_eq_taken.2 ⟨(List.append_nil t).symm, h, rfl⟩
  have derived {c r : List Char} (h : parse o .document t = .ok (.taken c r)) :
      IsDocument o t := by
    obtain ⟨rfl, document, rfl⟩ := parse_eq_taken.1 h
    rwa [List.append_nil]
  exact ⟨⟨fun ⟨_, _, h⟩ => derived h, fun h => ⟨t, [], whole h⟩⟩, ⟨derived, whole⟩,
    isDocument_rfc8259 t⟩

/-- The rules take what is derived at the start of a text and, if it is a number, not extended by
what is left. There is at most one such part; where there is none the text is refused, so a number
is refused that goes on without being completed. -/
theorem parse_leading (o : Options) :
    (∀ t c r, parse o .value t = .ok (.taken c r) ↔
      t = c ++ r ∧ Generates o .value c ∧ (IsNumber c → NumberEnds c r)) ∧
    (∀ b t c r, parse o (.compound b) t = .ok (.taken c r) ↔
      t = c ++ r ∧ Generates o (.compound b) c) ∧
    (∀ s c r c' r', c ++ r = c' ++ r' → Start.Accepts o s c r → s.Accepts o c' r' →
      c = c' ∧ r = r') ∧
    (∀ s t, (∃ e, parse o s t = .ok (.refused e)) ↔ ¬ ∃ c r, t = c ++ r ∧ s.Accepts o c r) ∧
    (∀ n r, IsNumber n → ¬ ('.' ∈ n ∨ 'e' ∈ n ∨ 'E' ∈ n) →
      (∀ d ∈ r.head?, CharClass.digit.accepts d = false) →
      ∃ e, parse o .value (n ++ '.' :: r) = .ok (.refused e)) ∧
    (∀ n mark r, IsNumber n → ¬ ('e' ∈ n ∨ 'E' ∈ n) → mark = 'e' ∨ mark = 'E' →
      (∀ sign rest, IsSign sign → r = sign ++ rest →
        ∀ d ∈ rest.head?, CharClass.digit.accepts d = false) →
      ∃ e, parse o .value (n ++ mark :: r) = .ok (.refused e)) :=
  ⟨fun _ _ _ => parse_eq_taken, fun _ _ _ _ => parse_eq_taken,
    fun _ _ _ _ _ e h h' => h.unique h' e, fun _ _ => parse_eq_refused,
    fun _ _ hn plain hr => parse_point hn plain hr,
    fun _ _ _ hn plain hm hr => parse_mark hn plain hm hr⟩

/-- `1.x` is refused. -/
theorem parse_leading_point : IsNumber ['1'] ∧
    ∃ e, parse {} .value (['1'] ++ '.' :: ['x']) = .ok (.refused e) := by
  have digit : IsInteger ['1'] := .digits rfl nofun
  have one : IsNumber ['1'] := .intro .absent digit .absent .absent
  refine ⟨one, (parse_leading {}).2.2.2.2.1 ['1'] ['x'] one (by decide) ?_⟩
  rintro _ ⟨⟩
  rfl

end Recognizer.Json
