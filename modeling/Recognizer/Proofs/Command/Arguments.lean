import Mathlib.Data.List.Induction
import Mathlib.Data.List.TakeWhile
import Mathlib.Tactic.Lemma
import Recognizer.Command.Match

/-!
# What the arguments of a match say

The arguments are told apart into flags and texts, by where they stand and how they start
(`flagsOf`, `textsOf`). Where nothing is wrong with them there is one text and the flags are known,
and then the options are told by the flags alone, wherever they stand (`optionsOf`). Otherwise the
first argument that offends is named. The arguments are read one by one; what has been read is told
by the arguments so far (`MatchArguments.ofArgs`), and the induction goes along them
(`Clean.foldlM_read`).
-/

namespace Recognizer.Command

variable {before after args flags : List String} {arg name text : String} {e : Failure}

/-- The argument starts with two dashes. -/
def IsDashed (arg : String) : Prop :=
  "--".toList <+: arg.toList

/-- Dashes are seen by looking. -/
instance : DecidablePred IsDashed := fun arg =>
  inferInstanceAs (Decidable ("--".toList <+: arg.toList))

/-- The flags: all that starts with two dashes, up to the first lone `--`. -/
def flagsOf (args : List String) : List String :=
  (args.takeWhile (· ≠ "--")).filter IsDashed

/-- The texts: all that is no flag, the first lone `--` apart. -/
def textsOf (args : List String) : List String :=
  (args.takeWhile (· ≠ "--")).filter (¬ IsDashed ·) ++ (args.dropWhile (· ≠ "--")).tail

/-- Without a lone `--`, no argument ends the flags. -/
lemma forall_ne_of_not_mem (h : "--" ∉ args) : ∀ arg ∈ args, decide (arg ≠ "--") = true := by
  intro arg mem
  rw [decide_eq_true_eq]
  rintro rfl
  exact h mem

/-- Without a lone `--`, all that is dashed is a flag. -/
lemma flagsOf_of_not_mem (h : "--" ∉ args) : flagsOf args = args.filter IsDashed := by
  rw [flagsOf, List.takeWhile_eq_self_iff.2 (forall_ne_of_not_mem h)]

/-- Without a lone `--`, all else is a text. -/
lemma textsOf_of_not_mem (h : "--" ∉ args) : textsOf args = args.filter (¬ IsDashed ·) := by
  have all := forall_ne_of_not_mem h
  rw [textsOf, List.takeWhile_eq_self_iff.2 all, List.dropWhile_eq_nil_iff.2 all, List.tail_nil,
    List.append_nil]

/-- Behind the first lone `--` there are no flags. -/
lemma flagsOf_append_cons (h : "--" ∉ before) (after : List String) :
    flagsOf (before ++ "--" :: after) = before.filter IsDashed := by
  rw [flagsOf, List.takeWhile_append_of_pos (forall_ne_of_not_mem h),
    List.takeWhile_cons_of_neg (by simp), List.append_nil]

/-- Behind the first lone `--` there are texts only. -/
lemma textsOf_append_cons (h : "--" ∉ before) (after : List String) :
    textsOf (before ++ "--" :: after) = before.filter (¬ IsDashed ·) ++ after := by
  have all := forall_ne_of_not_mem h
  rw [textsOf, List.takeWhile_append_of_pos all, List.dropWhile_append_of_pos all,
    List.takeWhile_cons_of_neg (by simp), List.dropWhile_cons_of_neg (by simp), List.append_nil,
    List.tail_cons]

/-- What an argument stands for behind others, and what it adds to them. -/
inductive Stands (before : List String) : String → Prop where
  | text {arg : String} : "--" ∈ before ∨ ¬ IsDashed arg →
    flagsOf (before ++ [arg]) = flagsOf before →
    textsOf (before ++ [arg]) = textsOf before ++ [arg] → Stands before arg
  | ends : "--" ∉ before → flagsOf (before ++ ["--"]) = flagsOf before →
    textsOf (before ++ ["--"]) = textsOf before → Stands before "--"
  | flag {arg : String} : "--" ∉ before → IsDashed arg → arg ≠ "--" →
    flagsOf (before ++ [arg]) = flagsOf before ++ [arg] →
    textsOf (before ++ [arg]) = textsOf before → Stands before arg

/-- An argument stands for one of the three. -/
lemma stands (before : List String) (arg : String) : Stands before arg := by
  by_cases mem : "--" ∈ before
  · obtain ⟨front, back, rfl, none⟩ := List.eq_append_cons_of_mem mem
    refine .text (.inl mem) ?_ ?_ <;> rw [List.append_assoc, List.cons_append]
    · rw [flagsOf_append_cons none, flagsOf_append_cons none]
    · rw [textsOf_append_cons none, textsOf_append_cons none, List.append_assoc]
  · by_cases lone : arg = "--"
    · rw [lone]
      refine .ends mem ?_ ?_
      · rw [flagsOf_append_cons mem, flagsOf_of_not_mem mem]
      · rw [textsOf_append_cons mem, textsOf_of_not_mem mem, List.append_nil]
    · have still : "--" ∉ before ++ [arg] := by grind
      have flags := flagsOf_of_not_mem still
      have texts := textsOf_of_not_mem still
      rw [List.filter_append, ← flagsOf_of_not_mem mem] at flags
      rw [List.filter_append, ← textsOf_of_not_mem mem] at texts
      by_cases dashed : IsDashed arg
      · exact .flag mem dashed lone (by simpa [dashed] using flags) (by simpa [dashed] using texts)
      · exact .text (.inr dashed) (by simpa [dashed] using flags) (by simpa [dashed] using texts)

/-- The flags there are. -/
inductive Known : String → Prop where
  | literals : Known "--literals"
  | strict : Known "--strict"
  | rule (r : RuleName) : Known ("--rule=" ++ r.text)

/-- Rule flags start with two dashes. -/
lemma isDashed_append (name : String) : IsDashed ("--rule=" ++ name) := by
  rw [IsDashed, String.toList_append]
  exact (by decide : "--".toList <+: "--rule=".toList).trans (List.prefix_append _ _)

/-- And none of them is a lone `--`. -/
lemma rule_ne_end (name : String) : "--rule=" ++ name ≠ "--" := by
  intro same
  have characters := congrArg String.toList same
  rw [String.toList_append] at characters
  simp at characters

/-- All flags start with two dashes and have more. -/
lemma Known.isDashed (h : Known arg) : IsDashed arg ∧ arg ≠ "--" := by
  cases h with
  | literals => decide +kernel
  | strict => decide +kernel
  | rule r => exact ⟨isDashed_append r.text, rule_ne_end r.text⟩

/-- A rule flag that is known names a rule. -/
lemma Known.rule_inv (h : Known ("--rule=" ++ name)) : ∃ r : RuleName, r.text = name := by
  generalize same : "--rule=" ++ name = flag at h
  have characters := congrArg String.toList same
  rw [String.toList_append] at characters
  cases h with
  | literals => simp at characters
  | strict => simp at characters
  | rule r => exact ⟨r, (String.append_right_inj _).1 same.symm⟩

/-- The rule that a flag asks for. -/
def ruleOf? (flag : String) : Option RuleName :=
  RuleName.all.find? fun r => flag == "--rule=" ++ r.text

/-- What flags ask for: of several rules, the last one. -/
def optionsOf (flags : List String) : MatchOptions where
  rule := (flags.filterMap ruleOf?).getLast?.getD .value
  literals := "--literals" ∈ flags
  strict := "--strict" ∈ flags

/-- The flag for a rule asks for that rule. -/
lemma ruleOf?_rule (r : RuleName) : ruleOf? ("--rule=" ++ r.text) = some r := by
  cases r <;> decide +kernel

/-- The flags without a name are different from it. -/
lemma rule_ne (r : RuleName) :
    "--literals" ≠ "--rule=" ++ r.text ∧ "--strict" ≠ "--rule=" ++ r.text := by
  cases r <;> decide +kernel

/-- A further rule flag replaces the rule. -/
lemma optionsOf_concat_rule (flags : List String) (r : RuleName) :
    optionsOf (flags ++ ["--rule=" ++ r.text]) = { optionsOf flags with rule := r } := by
  simp [optionsOf, ruleOf?_rule, rule_ne r]

/-- A further `--literals` turns the literals on. -/
lemma optionsOf_concat_literals (flags : List String) :
    optionsOf (flags ++ ["--literals"]) = { optionsOf flags with literals := true } := by
  have other : ruleOf? "--literals" = none := by decide +kernel
  simp [optionsOf, other]

/-- A further `--strict` turns strictness on. -/
lemma optionsOf_concat_strict (flags : List String) :
    optionsOf (flags ++ ["--strict"]) = { optionsOf flags with strict := true } := by
  have other : ruleOf? "--strict" = none := by decide +kernel
  simp [optionsOf, other]

/-- The name of a rule is read as the rule. -/
lemma ofText_text (r : RuleName) : RuleName.ofText r.text = .ok r := by
  cases r <;> decide +kernel

/-- Any other name is refused. -/
lemma ofText_unknown (h : ∀ r : RuleName, r.text ≠ name) :
    RuleName.ofText name = .error (.unknownRule name) := by
  have none : RuleName.all.find? (·.text == name) = none := by
    simp [h]
  rw [RuleName.ofText, none]

/-- The argument is at fault if it comes behind `before`: as a flag that is not known, or as a
second text. -/
inductive Offends (before : List String) : String → Failure → Prop where
  | option {arg : String} : "--" ∉ before → IsDashed arg → arg ≠ "--" →
    (∀ name, arg ≠ "--rule=" ++ name) → ¬ Known arg → Offends before arg (.unknownOption arg)
  | rule {arg name : String} : "--" ∉ before → arg = "--rule=" ++ name →
    (∀ r : RuleName, r.text ≠ name) → Offends before arg (.unknownRule name)
  | text {first arg : String} : textsOf before = [first] →
    textsOf (before ++ [arg]) = [first, arg] → Offends before arg (.unexpectedArgument arg)

/-- No argument is at fault. -/
def Clean (args : List String) : Prop :=
  ∀ before arg after e, args = before ++ arg :: after → ¬ Offends before arg e

/-- The first argument that is at fault is so for the reason `e`. -/
def FirstOffence (args : List String) (e : Failure) : Prop :=
  ∃ before arg after, args = before ++ arg :: after ∧ Clean before ∧ Offends before arg e

/-- No text is left over, and the flags are known. -/
structure Sound (args : List String) : Prop where
  texts : textsOf args = [] ∨ ∃ text, textsOf args = [text]
  flags : ∀ flag ∈ flagsOf args, Known flag

/-- Of no arguments none is at fault. -/
lemma clean_nil : Clean [] := by
  intro before arg after e split
  cases before <;> cases split

/-- None is at fault if none was before and the last is not. -/
lemma clean_concat :
    Clean (before ++ [arg]) ↔ Clean before ∧ ∀ e, ¬ Offends before arg e := by
  constructor
  · intro clean
    refine ⟨?_, fun e => clean before arg [] e rfl⟩
    rintro front mid back e rfl
    exact clean front mid (back ++ [arg]) e (by simp)
  · rintro ⟨clean, last⟩ front mid back e split
    obtain rfl | ⟨back, final, rfl⟩ := List.eq_nil_or_concat back
    · obtain ⟨rfl, rfl⟩ := List.append_singleton_inj.1 split
      exact last e
    · rw [List.concat_eq_append, ← List.cons_append, ← List.append_assoc,
        List.append_singleton_inj] at split
      exact clean front mid back e split.1

/-- There is a first argument at fault, if any is. -/
lemma clean_or_firstOffence (args : List String) : Clean args ∨ ∃ e, FirstOffence args e := by
  induction args using List.reverseRecOn with
  | nil => exact .inl clean_nil
  | append_singleton before arg ih =>
    obtain clean | ⟨e, front, mid, back, rfl, clean, offends⟩ := ih
    · by_cases last : ∃ e, Offends before arg e
      · obtain ⟨e, offends⟩ := last
        exact .inr ⟨e, before, arg, [], rfl, clean, offends⟩
      · exact .inl (clean_concat.2 ⟨clean, not_exists.1 last⟩)
    · exact .inr ⟨e, front, mid, back ++ [arg], by simp, clean, offends⟩

namespace MatchArguments

/-- What has been read of arguments that are sound. -/
def ofArgs (args : List String) : MatchArguments :=
  ⟨optionsOf (flagsOf args), (textsOf args).head?, "--" ∈ args⟩

variable {read : MatchArguments}

/-- Flags are told as the reader tells them. -/
lemma isDashed_iff : "--".toList.isPrefixOf arg.toList = true ↔ IsDashed arg :=
  List.isPrefixOf_iff_prefix

/-- An argument that stands for a text is the text, if there is none. -/
lemma read_text (h : read.flagsDone = true ∨ ¬ IsDashed arg) :
    read.read arg =
      if read.text = none then .ok { read with text := some arg }
      else .error (.unexpectedArgument arg) := by
  have stands : (read.flagsDone || !"--".toList.isPrefixOf arg.toList) = true := by
    rw [Bool.or_eq_true, Bool.not_eq_true', ← Bool.not_eq_true, isDashed_iff]
    exact h
  rw [MatchArguments.read, if_pos stands]
  cases read.text <;> rfl

/-- An argument that starts with two dashes is taken for a flag. -/
lemma read_dashed (done : read.flagsDone = false) (hd : IsDashed arg) :
    read.read arg =
      if arg = "--" then .ok { read with flagsDone := true }
      else if "--rule=".toList.isPrefixOf arg.toList then do
        let rule ← RuleName.ofText (String.ofList (arg.toList.drop "--rule=".length))
        return { read with options := { read.options with rule } }
      else if arg = "--literals" then
        .ok { read with options := { read.options with literals := true } }
      else if arg = "--strict" then
        .ok { read with options := { read.options with strict := true } }
      else .error (.unknownOption arg) := by
  have flag : ¬ (read.flagsDone || !"--".toList.isPrefixOf arg.toList) = true := by
    rw [done, Bool.false_or, isDashed_iff.2 hd]
    decide
  rw [MatchArguments.read, if_neg flag]

/-- A rule flag is read by its name. -/
lemma read_rule (done : read.flagsDone = false) (name : String) :
    read.read ("--rule=" ++ name) = do
      let rule ← RuleName.ofText name
      return { read with options := { read.options with rule } } := by
  have starts : "--rule=".toList.isPrefixOf ("--rule=" ++ name).toList = true := by
    rw [List.isPrefixOf_iff_prefix, String.toList_append]
    exact List.prefix_append _ _
  have behind : String.ofList (("--rule=" ++ name).toList.drop "--rule=".length) = name := by
    rw [String.toList_append, ← String.length_toList, List.drop_left, String.ofList_toList]
  rw [read_dashed done (isDashed_append name), if_neg (rule_ne_end name), if_pos starts,
    behind]

/-- What starts like a rule flag is one, for some name. -/
lemma exists_eq_append_of_isPrefixOf (h : "--rule=".toList.isPrefixOf arg.toList = true) :
    ∃ name, arg = "--rule=" ++ name := by
  obtain ⟨name, split⟩ := List.isPrefixOf_iff_prefix.1 h
  refine ⟨String.ofList name, String.toList_inj.1 ?_⟩
  rw [String.toList_append, ← split, List.append_cancel_left_eq]
  exact String.toList_ofList.symm

/-- A flag that is not known is refused. -/
lemma read_unknown (done : read.flagsDone = false) (hd : IsDashed arg) (ne : arg ≠ "--")
    (other : ∀ name, arg ≠ "--rule=" ++ name) (unknown : ¬ Known arg) :
    read.read arg = .error (.unknownOption arg) := by
  have noRule : ¬ "--rule=".toList.isPrefixOf arg.toList = true := by
    intro starts
    obtain ⟨name, same⟩ := exists_eq_append_of_isPrefixOf starts
    exact other name same
  have noLiterals : arg ≠ "--literals" := by
    rintro rfl
    exact unknown .literals
  have noStrict : arg ≠ "--strict" := by
    rintro rfl
    exact unknown .strict
  rw [read_dashed done hd, if_neg ne, if_neg noRule, if_neg noLiterals, if_neg noStrict]

/-- A flag that is known is added to the flags. -/
lemma read_known (done : read.flagsDone = false) (asked : read.options = optionsOf flags)
    (known : Known arg) :
    read.read arg = .ok { read with options := optionsOf (flags ++ [arg]) } := by
  cases known with
  | literals =>
    rw [read_dashed done (by decide +kernel), optionsOf_concat_literals, asked]
    rfl
  | strict =>
    rw [read_dashed done (by decide +kernel), optionsOf_concat_strict, asked]
    rfl
  | rule r =>
    rw [read_rule done, ofText_text, optionsOf_concat_rule, asked]
    rfl

/-- Without a lone `--`, flags may still come. -/
lemma flagsDone_ofArgs (h : "--" ∉ args) : (ofArgs args).flagsDone = false :=
  decide_eq_false h

/-- An argument at fault is refused for its fault. -/
lemma read_of_offends (h : Offends before arg e) : (ofArgs before).read arg = .error e := by
  cases h with
  | option still dashed ne other unknown =>
    exact read_unknown (flagsDone_ofArgs still) dashed ne other unknown
  | rule still named unknown =>
    rw [named, read_rule (flagsDone_ofArgs still), ofText_unknown unknown]
    rfl
  | @text first arg one two =>
    have some : (ofArgs before).text = some first := congrArg List.head? one
    cases stands before arg with
    | text place flags texts =>
      rw [read_text (place.imp_left decide_eq_true), some, if_neg (Option.some_ne_none first)]
    | ends still flags texts | flag still dashed ne flags texts =>
      rw [two, one] at texts
      cases texts

/-- An argument that is not at fault is added to what has been read. -/
lemma read_of_not_offends (sound : Sound before) (h : ∀ e, ¬ Offends before arg e) :
    Sound (before ++ [arg]) ∧ (ofArgs before).read arg = .ok (ofArgs (before ++ [arg])) := by
  cases stands before arg with
  | text place flags texts =>
    -- With a text before it, this one would be at fault.
    have none : textsOf before = [] := by
      obtain none | ⟨first, one⟩ := sound.texts
      · exact none
      · rw [one] at texts
        exact absurd (.text one texts) (h _)
    rw [none, List.nil_append] at texts
    have done : "--" ∈ before ++ [arg] ↔ "--" ∈ before := by
      have : arg = "--" → "--" ∈ before := by
        rintro rfl
        exact place.resolve_right (not_not.2 (List.prefix_refl _))
      grind
    have fresh : (ofArgs before).text = .none := congrArg List.head? none
    refine ⟨⟨.inr ⟨arg, texts⟩, flags ▸ sound.flags⟩, ?_⟩
    rw [read_text (place.imp_left decide_eq_true), if_pos fresh]
    simp only [ofArgs, flags, texts, done, List.head?_cons]
  | ends still flags texts =>
    refine ⟨⟨texts ▸ sound.texts, flags ▸ sound.flags⟩, ?_⟩
    rw [read_dashed (flagsDone_ofArgs still) (List.prefix_refl _), if_pos rfl]
    simp [ofArgs, flags, texts]
  | flag still dashed ne flags texts =>
    have known : Known arg := by
      by_contra unknown
      by_cases rule : ∃ name, arg = "--rule=" ++ name
      · obtain ⟨name, rfl⟩ := rule
        refine h _ (.rule still rfl fun r same => unknown ?_)
        rw [← same]
        exact .rule r
      · exact h _ (.option still dashed ne (not_exists.1 rule) unknown)
    have still' : "--" ∉ before ++ [arg] := by grind
    refine ⟨⟨texts ▸ sound.texts, ?_⟩, ?_⟩
    · rw [flags, List.forall_mem_append]
      exact ⟨sound.flags, by simpa using known⟩
    · rw [read_known (flagsDone_ofArgs still) rfl known]
      simp only [ofArgs, flags, texts, still, still']

end MatchArguments

open MatchArguments

/-- If no argument is at fault, all of them are read. -/
lemma Clean.foldlM_read (h : Clean args) :
    Sound args ∧ args.foldlM MatchArguments.read {} = .ok (ofArgs args) := by
  induction args using List.reverseRecOn with
  | nil => exact ⟨⟨.inl rfl, by simp [flagsOf]⟩, rfl⟩
  | append_singleton before arg ih =>
    obtain ⟨clean, last⟩ := clean_concat.1 h
    obtain ⟨sound, run⟩ := ih clean
    obtain ⟨sound', step⟩ := read_of_not_offends sound last
    refine ⟨sound', ?_⟩
    rw [List.foldlM_append, run]
    change [arg].foldlM MatchArguments.read (ofArgs before) = _
    rw [List.foldlM_cons, step]
    rfl

/-- The first argument at fault ends the reading. -/
lemma FirstOffence.foldlM_read (h : FirstOffence args e) :
    args.foldlM MatchArguments.read {} = .error e := by
  obtain ⟨before, arg, after, rfl, clean, offends⟩ := h
  rw [List.foldlM_append, clean.foldlM_read.2]
  change (arg :: after).foldlM MatchArguments.read (ofArgs before) = _
  rw [List.foldlM_cons, read_of_offends offends]
  rfl

/-- What is sound is so before the last argument. -/
lemma Sound.of_concat (h : Sound (before ++ [arg])) : Sound before := by
  cases stands before arg with
  | text place flags texts =>
    have none : textsOf before = [] := by
      obtain none | ⟨text, one⟩ := h.texts
      · rw [texts] at none
        simp at none
      · rw [texts] at one
        exact (List.append_eq_singleton_iff.1 one).elim And.left fun both => by simp at both
    exact ⟨.inl none, flags ▸ h.flags⟩
  | ends still flags texts => exact ⟨texts ▸ h.texts, flags ▸ h.flags⟩
  | flag still dashed ne flags texts =>
    have known := h.flags
    rw [flags, List.forall_mem_append] at known
    exact ⟨texts ▸ h.texts, known.1⟩

/-- A flag that is added is among the flags. -/
lemma mem_flagsOf_concat (still : "--" ∉ before) (dashed : IsDashed arg) (ne : arg ≠ "--") :
    arg ∈ flagsOf (before ++ [arg]) := by
  cases stands before arg with
  | text place => exact absurd place (not_or.2 ⟨still, not_not.2 dashed⟩)
  | ends => exact absurd rfl ne
  | flag _ _ _ flags =>
    rw [flags]
    exact List.mem_append_right _ (List.mem_singleton_self arg)

/-- Nothing is sound with an argument at fault. -/
lemma Offends.not_sound (h : Offends before arg e) : ¬ Sound (before ++ [arg]) := by
  intro sound
  cases h with
  | option still dashed ne _ unknown =>
    exact unknown (sound.flags arg (mem_flagsOf_concat still dashed ne))
  | @rule arg name still named unknown =>
    rw [named] at sound
    have known : Known ("--rule=" ++ name) :=
      sound.flags _ (mem_flagsOf_concat still (isDashed_append name) (rule_ne_end name))
    obtain ⟨r, same⟩ := known.rule_inv
    exact unknown r same
  | text one two =>
    have texts := sound.texts
    rw [two] at texts
    simp at texts

/-- Arguments of which none is at fault are the sound ones. -/
lemma clean_iff_sound : Clean args ↔ Sound args := by
  constructor
  · exact fun clean => clean.foldlM_read.1
  · intro sound
    induction args using List.reverseRecOn with
    | nil => exact clean_nil
    | append_singleton before arg ih =>
      exact clean_concat.2 ⟨ih sound.of_concat, fun e offends => offends.not_sound sound⟩

/-- Arguments of which none is at fault say what the flags ask for and which text is meant. -/
lemma Clean.parseMatchArguments_eq (h : Clean args) :
    parseMatchArguments args =
      match (textsOf args).head? with
      | some text => .ok (optionsOf (flagsOf args), text)
      | none => .error (.missing "text to match") := by
  rw [parseMatchArguments, h.foldlM_read.2]
  change (match (textsOf args).head? with | some text => _ | none => _) = _
  cases (textsOf args).head? <;> rfl

/-- Reading stops at the first argument at fault. -/
lemma FirstOffence.parseMatchArguments_eq (h : FirstOffence args e) :
    parseMatchArguments args = .error e := by
  rw [parseMatchArguments, h.foldlM_read]
  rfl

/-- What is read is the one text and what the flags ask for. -/
lemma parseMatchArguments_eq_ok {options : MatchOptions} :
    parseMatchArguments args = .ok (options, text) ↔
      textsOf args = [text] ∧ (∀ flag ∈ flagsOf args, Known flag) ∧
        options = optionsOf (flagsOf args) := by
  constructor
  · intro parsed
    obtain clean | ⟨e, offence⟩ := clean_or_firstOffence args
    · obtain ⟨texts, flags⟩ := clean_iff_sound.1 clean
      rw [clean.parseMatchArguments_eq] at parsed
      obtain none | ⟨text, one⟩ := texts
      · rw [none] at parsed
        cases parsed
      · rw [one] at parsed
        cases parsed
        exact ⟨one, flags, rfl⟩
    · cases offence.parseMatchArguments_eq.symm.trans parsed
  · rintro ⟨one, flags, rfl⟩
    have clean : Clean args := clean_iff_sound.2 ⟨.inr ⟨text, one⟩, flags⟩
    rw [clean.parseMatchArguments_eq, one]
    rfl

/-- What is refused has a first argument at fault, or no text. -/
lemma parseMatchArguments_eq_error :
    parseMatchArguments args = .error e ↔
      FirstOffence args e ∨ Clean args ∧ textsOf args = [] ∧ e = .missing "text to match" := by
  constructor
  · intro failed
    obtain clean | ⟨e', offence⟩ := clean_or_firstOffence args
    · rw [clean.parseMatchArguments_eq] at failed
      obtain none | ⟨text, one⟩ := (clean_iff_sound.1 clean).texts
      · rw [none] at failed
        cases failed
        exact .inr ⟨clean, none, rfl⟩
      · rw [one] at failed
        cases failed
    · cases offence.parseMatchArguments_eq.symm.trans failed
      exact .inl offence
  · rintro (offence | ⟨clean, none, rfl⟩)
    · exact offence.parseMatchArguments_eq
    · rw [clean.parseMatchArguments_eq, none]
      rfl

/-- Behind flags and a lone `--`, whatever comes next is the text. -/
lemma parseMatchArguments_behind_end (known : ∀ flag ∈ flags, Known flag) (text : String) :
    parseMatchArguments (flags ++ ["--", text]) = .ok (optionsOf flags, text) := by
  have still : "--" ∉ flags := fun mem => (known _ mem).isDashed.2 rfl
  have all : flags.filter IsDashed = flags :=
    List.filter_eq_self.2 fun flag mem => decide_eq_true (known flag mem).isDashed.1
  have none : flags.filter (¬ IsDashed ·) = [] :=
    List.filter_eq_nil_iff.2 fun flag mem => by simp [(known flag mem).isDashed.1]
  have flagsOf_eq : flagsOf (flags ++ ["--", text]) = flags := by
    rw [flagsOf_append_cons still, all]
  have textsOf_eq : textsOf (flags ++ ["--", text]) = [text] := by
    rw [textsOf_append_cons still, none, List.nil_append]
  rw [parseMatchArguments_eq_ok, flagsOf_eq]
  exact ⟨textsOf_eq, known, rfl⟩

/-- What is read of arguments is told by the flags and the texts among them. They are accepted if
there is one text and all flags are known; the text is then this one, and the options are what the
flags ask for. Otherwise the first argument at fault is named, a flag that is not known or a second
text, or that there is no text if no argument is at fault. Behind a lone `--`, every text is
taken. -/
theorem parseMatchArguments_eq_iff (args : List String) :
    (∀ options text, parseMatchArguments args = .ok (options, text) ↔
      textsOf args = [text] ∧ (∀ flag ∈ flagsOf args, Known flag) ∧
        options = optionsOf (flagsOf args)) ∧
    (∀ e, parseMatchArguments args = .error e ↔
      FirstOffence args e ∨ Clean args ∧ textsOf args = [] ∧ e = .missing "text to match") ∧
    ((∀ flag ∈ args, Known flag) → ∀ text,
      parseMatchArguments (args ++ ["--", text]) = .ok (optionsOf args, text)) :=
  ⟨fun _ _ => parseMatchArguments_eq_ok, fun _ => parseMatchArguments_eq_error,
    parseMatchArguments_behind_end⟩

/-- Two flags, and behind a lone `--` a text that looks like a third one. -/
theorem parseMatchArguments_eq_iff_dashes :
    (∀ flag ∈ ["--strict", "--rule=array"], Known flag) ∧
    parseMatchArguments ["--strict", "--rule=array", "--", "--literals"] =
      .ok (⟨.array, false, true⟩, "--literals") := by
  have known : ∀ flag ∈ ["--strict", "--rule=array"], Known flag := by
    simp only [List.forall_mem_cons]
    exact ⟨.strict, .rule .array, by simp⟩
  have asked : optionsOf ["--strict", "--rule=array"] = ⟨.array, false, true⟩ := by
    decide +kernel
  rw [← asked]
  exact ⟨known, (parseMatchArguments_eq_iff _).2.2 known "--literals"⟩

end Recognizer.Command
