import Recognizer.Proofs.Json.Choosing

/-!
# Values and lists follow positions

A list follows positions if the values in it do (`follows_list`). Those are shorter than the list,
so all values do (`follows_value`).
-/

namespace Recognizer.Json

open Text Position

variable {definitions : Link → Resolution Link} {o : Options} {padded fresh : Bool} {b : Bracket}
  {q q' : Position} {σ : List Bracket} {post : Aim} {c : Char} {as bs cs : List Char}
  {value : Pattern Link}

/-- No whitespace comes first. -/
def Unblank (cs : List Char) : Prop :=
  ∀ c ∈ cs.head?, CharClass.whitespace.accepts c = false

/-- No whitespace comes first if another character does. -/
lemma unblank_cons (solid : CharClass.whitespace.accepts c = false) (cs : List Char) :
    Unblank (c :: cs) := by
  intro d hd
  cases hd
  exact solid

/-- The items of arrays and the members of objects, with whitespace around them. -/
def itemOf (o : Options) (value : Pattern Link) : Bracket → Pattern Link
  | .square => .concat [whitespace, value, whitespace]
  | .curly =>
    .concat [whitespace, stringFor o, whitespace, .char ':', whitespace, value, whitespace]

/-- Arrays and objects of such values. -/
def listOf (o : Options) (value : Pattern Link) : Bracket → Pattern Link
  | .square => arrayOf value
  | .curly => objectOf o value

/-- Either is a list in brackets, in a context of its own. -/
lemma listOf_eq (o : Options) (value : Pattern Link) (b : Bracket) : ∃ name, listOf o value b =
    .context (bracketed b.opening b.closing (itemOf o value b)) name := by
  cases b with
  | square => exact ⟨_, rfl⟩
  | curly => exact ⟨_, rfl⟩

/-- The aim of values inside of `σ`. -/
def valueAim (o : Options) (σ : List Bracket) : Aim :=
  fun as q bs => Generates o .value as ∧ q.Settled σ bs

/-- The aim of items inside of `σ`, and of sequences of them. -/
def itemAim (o : Options) (s : Symbol) (σ : List Bracket) : Aim :=
  fun as q bs => Generates o s as ∧ q.Settled σ bs ∧ Unblank bs

/-- Nothing is skipped and no list is closed before a value starts. -/
def Starts (o : Options) (padded fresh : Bool) (σ : List Bracket) (cs : List Char) : Prop :=
  ∀ c ∈ cs.head?, step o padded (.value fresh σ) c = startValue o σ c

/-- The values in texts of less than `n` characters follow positions. -/
def FollowsBelow (definitions : Link → Resolution Link) (o : Options) (padded : Bool)
    (value : Pattern Link) (n : Nat) : Prop :=
  ∀ cs fresh σ, cs.length < n → Starts o padded fresh σ cs →
    Follows o padded (.value fresh σ) (value.Answers definitions cs) cs (valueAim o σ)

/-- A list that has just been opened does not end at once. -/
def Opens (fresh : Bool) (b : Bracket) (cs : List Char) : Prop :=
  fresh = true → ∀ w bs, cs = w ++ bs → IsBlank w → b.closing ∉ bs.head?

/-- Whitespace stays where it is, and the parts behind it go on. -/
lemma follows_parts_blank {ps : List (Pattern Link)}
    (hq : ∀ c, CharClass.whitespace.accepts c = true → step o padded q c = some q)
    (hps : ∀ w bs, cs = w ++ bs → IsBlank w → Unblank bs →
      Follows o padded q ((Course.parts ps).Answers definitions bs) bs (post.behind w)) :
    Follows o padded q ((Course.parts (whitespace :: ps)).Answers definitions cs) cs post := by
  obtain ⟨w, bs, rfl, hw, hbs, ha⟩ := exists_blank definitions cs
  have stay : read o padded q w = some q := read_of_forall_step fun c hc => hq c (hw c hc)
  exact follows_parts_taken ha stay (hps w bs rfl hw hbs)

/-- Whitespace behind an item or list may come before what is next. -/
lemma follows_blank_behind (h : q.Settled (b :: σ) cs) :
    Follows o padded q ((Course.parts [whitespace]).Answers definitions cs) cs fun w q' bs =>
      IsBlank w ∧ q'.Settled (b :: σ) bs ∧ Unblank bs := by
  obtain ⟨w, bs, rfl, hw, hbs, ha⟩ := exists_blank definitions cs
  have allowed : allowsBlank padded (b :: σ) = true := rfl
  obtain ⟨q', hr, settled⟩ := h.read_blank o hw (.inr allowed)
  refine follows_parts_taken ha hr (follows_parts_nil ?_)
  rw [Aim.behind, List.append_nil]
  exact ⟨hw, settled, hbs⟩

/-- A value starts where neither whitespace nor a closing bracket comes first. -/
lemma starts_of_unblank (hcs : Unblank cs) (opens : fresh = true → ']' ∉ cs.head?) :
    Starts o padded fresh σ cs := by
  refine fun c hc => step_value (fun hw => ?_) fun hf e => opens hf (e ▸ hc)
  cases hw.symm.trans (hcs c hc)

/-- No literal has been begun inside of a bracket. -/
lemma ne_literal_of_inside (seen : List Char) (next : Char) (rest : List Char)
    (σ' : List Bracket) : inside fresh b σ ≠ .literal seen next rest σ' := by
  cases b <;> exact fun h => by cases h

/-- A value with whitespace behind it, at the end of an item. -/
lemma follows_parts_value (hv : FollowsBelow definitions o padded value cs.length.succ)
    (starts : Starts o padded fresh (b :: σ) cs)
    (hp : ∀ v w q' bs, Generates o .value v → IsBlank w → q'.Settled (b :: σ) bs → Unblank bs →
      post (v ++ w) q' bs) :
    Follows o padded (.value fresh (b :: σ))
      ((Course.parts [value, whitespace]).Answers definitions cs) cs post := by
  refine follows_parts_cons (hv cs fresh _ (Nat.lt_succ_self _) starts) ?_
  rintro v bs q' - - ⟨generated, settled⟩
  refine (follows_blank_behind settled).aim ?_
  rintro w bs q'' - - ⟨hw, settled, unblank⟩
  exact hp v w q'' bs generated hw settled unblank

/-- Fewer texts are shorter. -/
lemma FollowsBelow.mono {m n : Nat} (h : FollowsBelow definitions o padded value n) (le : m ≤ n) :
    FollowsBelow definitions o padded value m :=
  fun cs fresh σ lt => h cs fresh σ (Nat.lt_of_lt_of_le lt le)

/-- A key starts with a quote. -/
lemma step_key (hf : fresh = true → c ≠ '\x7d') (hw : CharClass.whitespace.accepts c = false)
    (quote : c ≠ '"') : step o padded (.key fresh σ) c = none := by
  rw [step, hw, if_neg Bool.false_ne_true, if_neg quote, if_neg fun h => hf h.1 h.2]

/-- Behind a key a colon is needed. -/
lemma step_colon_eq_none (hw : CharClass.whitespace.accepts c = false) (ne : c ≠ ':') :
    step o padded (.colon σ) c = none := by
  rw [step, hw, if_neg Bool.false_ne_true, if_neg ne]

/-- An item follows positions if its value does. -/
lemma follows_item (hv : FollowsBelow definitions o padded value cs.length.succ)
    (opens : Opens fresh b cs) :
    Follows o padded (inside fresh b σ) ((itemOf o value b).Answers definitions cs) cs
      (itemAim o (.item b) (b :: σ)) := by
  cases b with
  | square =>
    refine .concat (follows_parts_blank (fun c => step_inside_blank .square) ?_)
    rintro w bs rfl hw hbs
    have starts : Starts o padded fresh (.square :: σ) bs :=
      starts_of_unblank hbs fun hf => opens hf w bs rfl hw
    refine follows_parts_value (hv.mono (by simp)) starts ?_
    intro v w' q' bs generated hw' settled unblank
    exact ⟨.element hw generated hw', settled, unblank⟩
  -- Key, colon and value come one behind the other, each with whitespace before it.
  | curly =>
    refine .concat (follows_parts_blank (fun c => step_inside_blank .curly) ?_)
    rintro w₁ bs₁ rfl hw₁ hbs₁
    rw [stringFor_eq]
    refine follows_parts_cons (follows_string waits_inside step_key_quote fun c hc => ?_) ?_
    · refine step_key (fun hf => ?_) (hbs₁ c hc)
      rintro rfl
      exact opens hf w₁ bs₁ rfl hw₁ hc
    rintro k bs₂ q' rfl - ⟨hk, rfl⟩
    refine follows_parts_blank (fun c hc => if_pos hc) ?_
    rintro w₂ bs₃ rfl hw₂ hbs₃
    refine follows_parts_char step_colon (fun c hc => step_colon_eq_none (hbs₃ c hc)) waits_colon ?_
    rintro bs₄ rfl
    refine follows_parts_blank (fun c hc => step_value_blank hc rfl) ?_
    rintro w₃ bs₅ rfl hw₃ hbs₅
    refine follows_parts_value (hv.mono ?_) (starts_of_unblank hbs₅ nofun) ?_
    · simp only [List.length_append, List.length_cons]
      omega
    intro v w₄ q' bs hg hw₄ settled unblank
    have generated := Generates.member hw₁ hk hw₂ hw₃ hg hw₄
    exact ⟨generated, settled, unblank⟩

/-- What comes behind the first item, with its comma. -/
def moreAim (o : Options) (b : Bracket) (σ : List Bracket) : Aim :=
  fun as q bs => (as = [] ∨ ∃ ts, as = ',' :: ts ∧ Generates o (.items b) ts) ∧
    q.Settled (b :: σ) bs ∧ Unblank bs ∧ ',' ∉ bs.head?

/-- One item and what comes behind it are items. -/
lemma items_of_more (generated : Generates o (.item b) as)
    (more : bs = [] ∨ ∃ ts, bs = ',' :: ts ∧ Generates o (.items b) ts) :
    Generates o (.items b) (as ++ bs) := by
  rcases more with rfl | ⟨ts, rfl, hts⟩
  · rw [List.append_nil]
    exact .last b generated
  · exact .more b generated hts

/-- Where none comes first, whitespace takes nothing. -/
lemma answers_whitespace_nil (h : Unblank cs) :
    (whitespace : Pattern Link).Answers definitions cs (.taken [] cs) := by
  obtain ⟨w, bs, rfl, hw, _, ha⟩ := exists_blank definitions cs
  cases w with
  | nil => exact ha
  | cons c w => cases (h c rfl).symm.trans (hw c List.mem_cons_self)

/-- A comma takes the whitespace behind it. -/
lemma exists_comma (definitions : Link → Resolution Link) (cs : List Char) :
    ∃ w bs, cs = w ++ bs ∧ IsBlank w ∧ Unblank bs ∧
    comma.Answers definitions (',' :: cs) (.taken (',' :: w) bs) := by
  obtain ⟨w, bs, rfl, hw, hbs, ha⟩ := exists_blank definitions cs
  refine ⟨w, bs, rfl, hw, hbs, ?_⟩
  have last := Course.answers_parts_cons ha (Course.answers_parts_nil bs)
  have more := Course.answers_parts_cons (Pattern.answers_char ',' (w ++ bs)) last
  have unblank : Unblank (',' :: (w ++ bs)) := unblank_cons rfl (w ++ bs)
  have all := (Course.answers_parts_cons (answers_whitespace_nil unblank) more).concat
  rw [comma]
  simpa only [Verdict.behind, List.append_nil, List.nil_append, List.singleton_append] using all

/-- A comma declines anything else. -/
lemma declines_comma (definitions : Link → Resolution Link) (unblank : Unblank cs)
    (h : ',' ∉ cs.head?) :
    comma.Declines definitions cs := by
  have char : (Pattern.char ',' : Pattern Link).Declines definitions cs := by
    refine Pattern.declines_char fun c hc => ?_
    rintro rfl
    exact h hc
  exact char.concat_of_taken_nil (answers_whitespace_nil unblank)

/-- Behind an item, commas lead to further items. -/
lemma follows_listing (cs : List Char) {count : Nat} (hc : 1 ≤ count)
    (hv : FollowsBelow definitions o padded value cs.length) (settled : q.Settled (b :: σ) cs)
    (unblank : Unblank cs) :
    Follows o padded q
      ((Course.listing (itemOf o value b) comma .forbidden count).Answers definitions cs) cs
      (moreAim o b σ) := by
  -- A comma and an item take something, so the induction is on the length of what is left.
  induction h : cs.length using Nat.strongRecOn generalizing cs q count with
  | ind n ih =>
  subst h
  by_cases hcomma : ',' ∈ cs.head?
  · obtain ⟨cs, rfl⟩ := List.head?_eq_some_iff.1 hcomma
    obtain ⟨w, bs, rfl, hw, hbs, ha⟩ := exists_comma definitions cs
    have start : read o padded q (',' :: w) = some (inside false b σ) := by
      rw [read_cons ((settled.step rfl).trans (stepBehind_comma b)), read_inside_blank b hw]
    have item : Follows o padded (inside false b σ) ((itemOf o value b).Answers definitions bs) bs
      (itemAim o (.item b) (b :: σ)) := follows_item (hv.mono (by simp)) nofun
    refine .behind start ?_ fun h => h
    refine item.bind ?_ fun hr => ⟨_, Course.refuses_listing ha (List.cons_ne_nil _ _) hr, rfl⟩
    rintro as bs q' rfl hp ⟨generated, settled, unblank⟩ hr
    have shorter : bs.length < (',' :: (w ++ (as ++ bs))).length := by
      simp only [List.length_cons, List.length_append]
      omega
    have rest := ih bs.length shorter bs (Nat.le_add_left 1 count) (hv.mono (Nat.le_of_lt shorter))
      settled unblank rfl
    refine .behind hr (rest.aim ?_) (Course.answers_listing_more ha hp (List.cons_ne_nil _ _))
    rintro as' bs q'' - - ⟨more, settled, unblank, hcomma⟩
    have items : Generates o (.items b) (w ++ (as ++ as')) :=
      .blank_append_items hw (items_of_more generated more)
    exact ⟨.inr ⟨_, rfl, items⟩, settled, unblank, hcomma⟩
  · obtain ⟨e, _, ha⟩ := declines_comma definitions unblank hcomma
    exact .taken_nil (Course.answers_listing_stop hc ha) ⟨.inl rfl, settled, unblank, hcomma⟩

/-- Items follow positions if the values in them do. -/
lemma follows_items (hv : FollowsBelow definitions o padded value cs.length.succ)
    (opens : Opens true b cs) :
    Follows o padded (inside true b σ)
      ((Pattern.separated (itemOf o value b) comma).Answers definitions cs) cs fun as q' bs =>
        Generates o (.items b) as ∧ q'.Settled (b :: σ) bs ∧ Unblank bs ∧ ',' ∉ bs.head? := by
  refine (follows_item hv opens).bind ?_ fun hr =>
    ⟨_, Course.refuses_series hr comma .forbidden, rfl⟩
  rintro as bs q' rfl hp ⟨generated, settled, unblank⟩ hr
  have rest := follows_listing bs (Nat.le_refl 1) (hv.mono (by simp; omega)) settled unblank
  refine .behind hr (rest.aim ?_) (Course.answers_series hp)
  rintro as' bs q'' - - ⟨more, settled, unblank, hcomma⟩
  exact ⟨items_of_more generated more, settled, unblank, hcomma⟩

/-- Behind an item only a comma or the closing bracket is read. -/
lemma stepBehind_eq_none (hw : CharClass.whitespace.accepts c = false) (hcomma : c ≠ ',')
    (ne : c ≠ b.closing) : stepBehind padded (b :: σ) c = none := by
  rw [stepBehind, hw, if_neg Bool.false_ne_true, if_neg hcomma, if_neg ne]

/-- The aim of what comes behind an opening bracket. -/
def closedAim (o : Options) (b : Bracket) (σ : List Bracket) : Aim :=
  fun as q _ => Generates o (.compound b) (b.opening :: as) ∧ q = .after σ

/-- A list that is not empty follows positions behind its opening bracket. -/
lemma follows_filled (hv : FollowsBelow definitions o padded value cs.length.succ)
    (opens : Opens true b cs) :
    Follows o padded (inside true b σ)
      ((Pattern.concat [.separated (itemOf o value b) comma, .char b.closing]).Answers definitions
        cs) cs (closedAim o b σ) := by
  refine .concat (follows_parts_cons (follows_items hv opens) ?_)
  rintro as bs q' - - ⟨generated, settled, unblank, hcomma⟩
  have closing : step o padded q' b.closing = some (.after σ) :=
    (settled.ends.step (delimits_closing b)).trans (stepBehind_closing b)
  refine follows_parts_char closing (fun c hc ne => ?_) settled.ends.waits ?_
  · rw [settled.step hc]
    refine stepBehind_eq_none (unblank c hc) ?_ ne
    rintro rfl
    exact hcomma hc
  · rintro bs rfl
    refine follows_parts_nil ⟨?_, rfl⟩
    rw [List.append_nil]
    exact .filled b generated

/-- There is one way to split off all whitespace. -/
lemma eq_of_blank_append {w w' : List Char} (hw : IsBlank w) (hw' : IsBlank w') (hbs : Unblank bs)
    (hcs : Unblank cs) (h : w ++ bs = w' ++ cs) : bs = cs := by
  induction w generalizing w' with
  | nil =>
    cases w' with
    | nil => exact h
    | cons c w' =>
      subst h
      cases (hbs c rfl).symm.trans (hw' c List.mem_cons_self)
  | cons c w ih =>
    cases w' with
    | nil =>
      subst h
      cases (hcs c rfl).symm.trans (hw c List.mem_cons_self)
    | cons c' w' =>
      exact ih (List.forall_mem_cons.1 hw).2 (List.forall_mem_cons.1 hw').2 (List.cons.inj h).2

/-- A closing bracket is no whitespace. -/
lemma unblank_closing (h : b.closing ∈ bs.head?) : Unblank bs := by
  intro c hc
  cases Option.mem_unique h hc
  cases b <;> rfl

/-- An empty list is taken up to its closing bracket. -/
lemma answers_empty {w : List Char}
    (ha : whitespace.Answers definitions (w ++ b.closing :: bs) (.taken w (b.closing :: bs))) :
    (Pattern.concat [whitespace, .char b.closing]).Answers definitions ((w ++ [b.closing]) ++ bs)
      (.taken (w ++ [b.closing]) bs) := by
  have last : (Course.parts [.char b.closing]).Answers definitions (b.closing :: bs)
      (.taken ([b.closing] ++ []) bs) :=
    Course.answers_parts_cons (Pattern.answers_char b.closing bs) (Course.answers_parts_nil bs)
  rw [List.append_assoc]
  exact (Course.answers_parts_cons ha last).concat

/-- What comes behind an opening bracket. -/
lemma follows_choice (hv : FollowsBelow definitions o padded value cs.length.succ) :
    Follows o padded (inside true b σ) ((Pattern.firstOf [.concat [whitespace, .char b.closing],
        .concat [.separated (itemOf o value b) comma, .char b.closing]]).Answers definitions cs) cs
      (closedAim o b σ) := by
  obtain ⟨w, bs, rfl, hw, hbs, ha⟩ := exists_blank definitions cs
  by_cases closing : b.closing ∈ bs.head?
  · obtain ⟨bs, rfl⟩ := List.head?_eq_some_iff.1 closing
    have hr : read o padded (inside true b σ) (w ++ [b.closing]) = some (.after σ) := by
      rw [read_append_of_read (read_inside_blank b hw), read_singleton, step_inside_closing]
    have split : w ++ b.closing :: bs = (w ++ [b.closing]) ++ bs := by simp
    rw [split]
    exact .taken (Pattern.answers_firstOf (List.forall_mem_nil _) (answers_empty ha)) hr
      ⟨.empty b hw, rfl⟩
  · -- The empty list is refused behind the whitespace, and no later than the items are.
    have declines : (Pattern.char b.closing : Pattern Link).Declines definitions bs := by
      refine Pattern.declines_char fun c hc => ?_
      rintro rfl
      exact closing hc
    obtain ⟨e, he, hd⟩ := declines
    have empty := (Course.answers_parts_cons ha (Course.refuses_parts_cons hd [])).concat
    have opens : Opens true b (w ++ bs) := by
      rintro - w' bs' split hw' closing'
      rw [eq_of_blank_append hw hw' hbs (unblank_closing closing') split] at closing
      exact closing closing'
    refine follows_firstOf_pair empty (fun q' n stops => ?_) (follows_filled hv opens)
    have le := stops.le (fun c hc => step_inside_blank b (hw c hc)) ne_literal_of_inside
    show e.offset + byteLength w ≤ n
    rwa [he, Nat.zero_add]

/-- A list, from where its opening bracket leads into it. -/
lemma follows_list (hv : FollowsBelow definitions o padded value cs.length) (hq : q.Waits)
    (hd : step o padded q b.opening = some (inside true b σ))
    (hr : ∀ c ∈ cs.head?, c ≠ b.opening → step o padded q c = none) :
    Follows o padded q ((listOf o value b).Answers definitions cs) cs fun as q' _ =>
      Generates o (.compound b) as ∧ q' = .after σ := by
  obtain ⟨name, eq⟩ := listOf_eq o value b
  rw [eq]
  refine .context name (.concat (follows_parts_char hd hr hq ?_))
  rintro bs rfl
  refine follows_parts_cons (follows_choice hv) ?_
  rintro as bs q' - - ⟨generated, rfl⟩
  refine follows_parts_nil ⟨?_, rfl⟩
  rw [List.append_nil]
  exact generated

/-- A list declines where its bracket does not open. -/
lemma declines_list (h : b.opening ∉ cs.head?) :
    (listOf o value b).Declines definitions cs := by
  have char : (Pattern.char b.opening : Pattern Link).Declines definitions cs := by
    refine Pattern.declines_char fun c hc => ?_
    rintro rfl
    exact h hc
  obtain ⟨name, eq⟩ := listOf_eq o value b
  rw [eq]
  exact char.concat.context name

/-- A literal is read as far as the text goes on with it. -/
lemma exists_literal_prefix (o : Options) (padded : Bool) (seen : List Char) (σ : List Bracket)
    {next : Char} {rest : List Char} (h : ¬ next :: rest <+: cs) :
    ∃ as bs next' rest', cs = as ++ bs ∧ next' ∉ bs.head? ∧
      read o padded (.literal seen next rest σ) as =
        some (.literal (seen ++ as) next' rest' σ) := by
  induction cs generalizing seen next rest with
  | nil => exact ⟨[], [], next, rest, rfl, nofun, by rw [List.append_nil]; rfl⟩
  | cons c cs ih =>
    by_cases hc : c = next
    · subst hc
      cases rest with
      | nil => exact absurd ⟨cs, rfl⟩ h
      | cons next' rest =>
        have shorter : ¬ next' :: rest <+: cs := fun hp => h ((List.prefix_cons_inj c).2 hp)
        obtain ⟨as, bs, next'', rest', rfl, hb, hr⟩ := ih (seen ++ [c]) shorter
        refine ⟨c :: as, bs, next'', rest', rfl, hb, ?_⟩
        have step : step o padded (.literal seen c (next' :: rest) σ) c =
          some (.literal (seen ++ [c]) next' rest σ) := if_pos rfl
        rw [read_cons step, hr, List.append_assoc, List.singleton_append]
    · refine ⟨[], c :: cs, next, rest, rfl, fun h => hc (Option.some.inj h), ?_⟩
      rw [List.append_nil]
      rfl

/-- The literal that starts with the first character of the text. -/
lemma follows_literal {text : String} {next : Char} {rest : List Char}
    (enabled : o.literals = true) (word : text.toList = c :: next :: rest)
    (hw : c :: next :: rest ∈ literalWords) (starts : Starts o padded fresh σ (c :: cs)) :
    Follows o padded (.value fresh σ) ((Pattern.literal text : Pattern Link).Answers definitions
      (c :: cs)) (c :: cs) (valueAim o σ) := by
  have start : step o padded (.value fresh σ) c = some (.literal [c] next rest σ) :=
    (starts c rfl).trans (startValue_word enabled hw).1
  by_cases whole : next :: rest <+: cs
  · obtain ⟨bs, rfl⟩ := whole
    have taken : (Pattern.literal text).Answers definitions (text.toList ++ bs)
      (.taken text.toList bs) := Pattern.answers_literal text bs
    have hr : read o padded (.value fresh σ) (c :: next :: rest) = some (.after σ) := by
      rw [read_cons start, read_literal]
    rw [word] at taken
    exact .taken taken hr ⟨.literal enabled hw, .inl rfl⟩
  -- The text is read into the literal, but refused where the literal starts.
  · have missing : ¬ text.toList <+: c :: cs := by
      rw [word]
      exact fun hp => whole ((List.prefix_cons_inj c).1 hp)
    obtain ⟨cause, ha⟩ := Pattern.refuses_literal definitions missing
    obtain ⟨as, bs, next', rest', rfl, hb, hr⟩ := exists_literal_prefix o padded [c] σ whole
    refine ⟨_, ha, .refused ⟨c :: as, bs, rfl, ⟨(read_cons start as).trans hr, ?_⟩, ?_⟩ ?_⟩
    · intro d hd
      have ne : d ≠ next' := fun e => hb (e ▸ hd)
      exact if_neg ne
    · exact (Nat.zero_add _).symm
    · rintro (h | ⟨_, _, h⟩) <;> cases h

/-- Where no kind of values starts, nothing can be read. -/
lemma startValue_eq_none (h : ∀ k ∈ kinds o, ¬ k.Starts c) : startValue o σ c = none := by
  have plain (k : Kind) (hk : k ∈ [.string, .number, .list .curly, .list .square]) :
      ¬ k.Starts c := h k (List.mem_append_left _ hk)
  have quote : c ≠ '"' := plain .string (by decide)
  have curly : c ≠ '\x7b' := plain (.list .curly) (by decide)
  have square : c ≠ '[' := plain (.list .square) (by decide)
  have number : ¬ StartsNumber c := plain .number (by decide)
  have first : NumberPlace.first c = none := by
    rw [Option.eq_none_iff_forall_ne_some]
    exact fun place hp => number (.inr (NumberPlace.digit_of_first hp))
  rw [startValue, if_neg quote, if_neg fun minus => number (.inl minus), if_neg square,
    if_neg curly, first]
  show startLiteral o c σ = none
  rw [startLiteral]
  split
  · next enabled =>
    have literal (text : String) (ht : text ∈ ["true", "false", "null"]) :
        c ∉ text.toList.head? := by
      refine h (.literal text) (List.mem_append_right _ ?_)
      rw [if_pos enabled]
      exact List.mem_map_of_mem ht
    have t : c ≠ 't' := fun e => literal "true" (by decide) (congrArg some e.symm)
    have f : c ≠ 'f' := fun e => literal "false" (by decide) (congrArg some e.symm)
    have n : c ≠ 'n' := fun e => literal "null" (by decide) (congrArg some e.symm)
    rw [if_neg t, if_neg f, if_neg n]
  · rfl

/-- A string in the place of a value follows positions. -/
lemma follows_value_string :
    Follows o padded (.value fresh σ) ((stringOf o.plain : Pattern Link).Answers definitions
      ('"' :: cs)) ('"' :: cs) (valueAim o σ) := by
  refine (follows_string waits_value step_value_quote ?_).aim ?_
  · rintro _ ⟨⟩ ne
    exact absurd rfl ne
  · rintro as bs _ - - ⟨h, rfl⟩
    exact ⟨.string h, .inl rfl⟩

/-- So does a number. -/
lemma follows_value_number (numeric : c = '-' ∨ CharClass.digit.accepts c = true)
    (starts : Starts o padded fresh σ (c :: cs)) :
    Follows o padded (.value fresh σ) ((number : Pattern Link).Answers definitions (c :: cs))
      (c :: cs) (valueAim o σ) := by
  refine (follows_number starts ?_).aim ?_
  · rcases numeric with rfl | digit
    · exact .inl rfl
    · exact .inr ⟨c, rfl, digit⟩
  · rintro as bs q' - - ⟨h, _, settled⟩
    exact ⟨.number h, settled⟩

/-- A choice follows the positions in values where a value of its kind starts. -/
lemma follows_kind {k : Kind} {lists : Bracket → Pattern Link} (hk : k ∈ kinds o)
    (hc : c ∈ cs.head?) (start : k.Starts c) (starts : Starts o padded fresh σ cs)
    (hl : ∀ b : Bracket, b.opening ∈ cs.head? →
      Follows o padded (.value fresh σ) ((lists b).Answers definitions cs) cs (valueAim o σ)) :
    Follows o padded (.value fresh σ) ((k.pattern o lists).Answers definitions cs) cs
      (valueAim o σ) := by
  cases k with
  | list b =>
    cases start
    exact hl b hc
  | string =>
    cases start
    obtain ⟨cs, rfl⟩ := List.head?_eq_some_iff.1 hc
    exact follows_value_string
  | number =>
    obtain ⟨cs, rfl⟩ := List.head?_eq_some_iff.1 hc
    exact follows_value_number start starts
  | literal text =>
    obtain ⟨cs, rfl⟩ := List.head?_eq_some_iff.1 hc
    obtain ⟨enabled, mem⟩ := Kind.word_of_mem hk
    obtain ⟨c', next, rest, word⟩ := Kind.exists_cons_of_mem hk
    rw [Kind.Starts, word] at start
    cases start
    exact follows_literal enabled word (word ▸ mem) starts

/-- A value is what the choice takes that its first character belongs to. -/
lemma follows_valueOf (lists : Bracket → Pattern Link) (starts : Starts o padded fresh σ cs)
    (hl : ∀ b : Bracket, b.opening ∈ cs.head? →
      Follows o padded (.value fresh σ) ((lists b).Answers definitions cs) cs (valueAim o σ))
    (hd : ∀ b : Bracket, b.opening ∉ cs.head? → (lists b).Declines definitions cs) :
    Follows o padded (.value fresh σ)
      ((valueOf o (lists .curly) (lists .square)).Answers definitions cs) cs (valueAim o σ) := by
  apply Follows.label
  rw [stringFor_eq]
  show Follows o padded (.value fresh σ)
    ((Pattern.firstOf (choices o lists ++ literalsFor o)).Answers definitions cs) cs _
  rcases exists_choice o hd with ⟨k, hk, c, hc, start, ps, qs, split, before, behind⟩ | ⟨none, all⟩
  · rw [split]
    exact follows_firstOf before (follows_kind hk hc start starts hl) behind
  · refine follows_firstOf_of_declines all waits_value fun c hc => ?_
    rw [starts c hc]
    exact startValue_eq_none fun k hk => none k hk c hc

/-- The link from one rule of the grammar to another. -/
def linkOf : Bracket → Link
  | .square => .weak ⟨0, 2⟩
  | .curly => .weak ⟨0, 1⟩

/-- The values that rules refer to. -/
abbrev inner : Pattern Link :=
  .refer (.weak ⟨0, 0⟩)

/-- The rule of a list is defined as the list of values. -/
lemma Defines.list (hd : Defines o definitions) {link : Link} (hl : link.rule = (linkOf b).rule) :
    definitions link = .defined (listOf o inner b) := by
  cases b with
  | square => exact (hd link).2.2 hl
  | curly => exact (hd link).2.1 hl

/-- A list in the place of a value. -/
lemma follows_value_list (hv : FollowsBelow definitions o padded value cs.length)
    (hb : b.opening ∈ cs.head?) :
    Follows o padded (.value fresh σ) ((listOf o value b).Answers definitions cs) cs
      (valueAim o σ) := by
  obtain ⟨cs, rfl⟩ := List.head?_eq_some_iff.1 hb
  refine (follows_list hv waits_value (step_value_opening b) ?_).aim ?_
  · rintro _ ⟨⟩ ne
    exact absurd rfl ne
  · rintro as bs _ - - ⟨generated, rfl⟩
    exact ⟨.compound b generated, .inl rfl⟩

/-- Values follow positions, whatever link leads to their rule. -/
theorem follows_value (hd : Defines o definitions) (link : Link) (hl : link.rule = ⟨0, 0⟩)
    (cs : List Char) (starts : Starts o padded fresh σ cs) :
    Follows o padded (.value fresh σ) ((Pattern.refer link).Answers definitions cs) cs
      (valueAim o σ) := by
  induction h : cs.length using Nat.strongRecOn generalizing link cs fresh σ with
  | ind n ih =>
  subst h
  -- The values in a list are shorter than the list.
  have below : FollowsBelow definitions o padded inner cs.length := fun cs' fresh σ lt starts =>
    ih cs'.length lt _ rfl cs' starts rfl
  refine .refer ((hd link).1 hl) ?_
  have links (b : Bracket) : definitions (linkOf b) = .defined (listOf o inner b) := hd.list rfl
  refine follows_valueOf (fun b => .refer (linkOf b)) starts (fun b hb => ?_) fun b hb => ?_
  · exact .refer (links b) (follows_value_list below hb)
  · exact (declines_list hb).refer (links b)

/-- So do lists. -/
theorem follows_compound (hd : Defines o definitions) (link : Link)
    (hl : link.rule = (linkOf b).rule) (cs : List Char) (hq : q.Waits)
    (hs : step o padded q b.opening = some (inside true b σ))
    (hr : ∀ c ∈ cs.head?, c ≠ b.opening → step o padded q c = none) :
    Follows o padded q ((Pattern.refer link).Answers definitions cs) cs fun as q' _ =>
      Generates o (.compound b) as ∧ q' = .after σ := by
  have below : FollowsBelow definitions o padded inner cs.length := fun cs' fresh σ _ starts =>
    follows_value hd _ rfl cs' starts
  exact .refer (hd.list hl) (follows_list below hq hs hr)

end Recognizer.Json
