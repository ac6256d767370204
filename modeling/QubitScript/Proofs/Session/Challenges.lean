import QubitScript.Proofs.Lexer.Calls
import QubitScript.Proofs.Pattern.Occurring
import QubitScript.Proofs.Session.Ledger

/-!
# What completes a challenge

A line completes a challenge if the pattern of the challenge occurs in it. The built-in patterns
look for the text of a call: one of a few spellings of a name, and in parentheses nothing but word
characters and commas.
-/

namespace QubitScript

open QubitScript.Text

/-! ## Texts of calls in a line -/

/-- A text of word characters. -/
def IsWords (text : List Char) : Prop := text ≠ [] ∧ ∀ c ∈ text, isWord c = true

instance (text : List Char) : Decidable (IsWords text) :=
  decidable_of_iff (text ≠ [] ∧ text.all isWord = true) (and_congr_right fun _ => List.all_eq_true)

/-- Two words with a comma between them. -/
def IsPair (text : List Char) : Prop :=
  ∃ first second, IsWords first ∧ IsWords second ∧ text = first ++ ',' :: second

/-- A word, or words with a comma before each, where the first may have another word before its
comma. -/
def IsListed (text : List Char) : Prop :=
  IsWords text ∨ ∃ pieces : List (List Char), pieces ≠ [] ∧
    (∀ piece ∈ pieces, ∃ first second, (∀ c ∈ first, isWord c = true) ∧ IsWords second ∧
      piece = first ++ ',' :: second) ∧
    text = pieces.flatten

/-- A text holds one of the names, and right after it something in parentheses. -/
def Writes (names : List String) (inside : List Char → Prop) (text : List Char) : Prop :=
  ∃ before name inner after, name ∈ names ∧ inside inner ∧
    text = before ++ (name.toList ++ '(' :: (inner ++ ')' :: after))

/-- The spellings of a name that earn the challenge of entangling. -/
def entangleSpellings : List String := ["ENTANGLE", "E", "e", "entangle", "Entangle"]

/-- The spellings of a name that earn the challenge of the Hadamard gate. -/
def hadamardSpellings : List String := ["hadamard", "h", "H", "HADAMARD"]

/-! ## Patterns of calls -/

namespace Pattern

def spelling (name : String) : Pattern := .oneOfEach (name.toList.map CharSet.single)

def words : Pattern := .star none true (.oneOfEach [wordSet])

def sign (c : Char) : Pattern := .oneOfEach [.single c]

/-- One of the names, then parts in parentheses, with word characters around. -/
def callWithin (names : List String) (parts : List Pattern) : Pattern :=
  (parts ++ [sign ')', words]).foldl .seq
    ((words.seq (.choice (names.map spelling))).seq (sign '('))

/-- The texts that patterns take one after another. -/
def TakesEach : List Pattern → List Char → Prop
  | [], text => text = []
  | part :: parts, text =>
    ∃ before after, part.Takes before ∧ TakesEach parts after ∧ text = before ++ after

theorem takes_foldl_seq {parts : List Pattern} : ∀ {pattern : Pattern} {text : List Char},
    (parts.foldl seq pattern).Takes text ↔
      ∃ before after, pattern.Takes before ∧ TakesEach parts after ∧ text = before ++ after := by
  induction parts with
  | nil => simp [TakesEach]
  | cons part parts ih =>
      intro pattern text
      rw [List.foldl_cons, ih]
      constructor
      · rintro ⟨_, after, hfront, hafter, rfl⟩
        obtain ⟨before, middle, hbefore, hmiddle, rfl⟩ := takes_seq.mp hfront
        exact ⟨before, middle ++ after, hbefore, ⟨middle, after, hmiddle, hafter, rfl⟩,
          List.append_assoc ..⟩
      · rintro ⟨before, _, hbefore, ⟨middle, after, hmiddle, hafter, rfl⟩, rfl⟩
        exact ⟨before ++ middle, after, .seq hbefore hmiddle, hafter,
          (List.append_assoc ..).symm⟩

theorem takesEach_append {parts others : List Pattern} : ∀ {text : List Char},
    TakesEach (parts ++ others) text ↔
      ∃ before after, TakesEach parts before ∧ TakesEach others after ∧ text = before ++ after := by
  induction parts with
  | nil => simp [TakesEach]
  | cons part parts ih =>
      intro text
      rw [List.cons_append, TakesEach]
      constructor
      · rintro ⟨first, _, hfirst, hrest, rfl⟩
        obtain ⟨before, after, hbefore, hafter, rfl⟩ := ih.mp hrest
        exact ⟨first ++ before, after, ⟨first, before, hfirst, hbefore, rfl⟩, hafter,
          (List.append_assoc ..).symm⟩
      · rintro ⟨_, after, ⟨first, before, hfirst, hbefore, rfl⟩, hafter, rfl⟩
        exact ⟨first, before ++ after, hfirst, ih.mpr ⟨before, after, hbefore, hafter, rfl⟩,
          List.append_assoc ..⟩

theorem takes_spelling {name : String} {text : List Char} :
    (spelling name).Takes text ↔ text = name.toList := by
  have hchars : ∀ {chars text : List Char},
      List.Forall₂ (fun set c => set.contains c = true) (chars.map CharSet.single) text ↔
        text = chars := by
    intro chars
    induction chars with
    | nil => simp
    | cons c chars ih =>
        intro text
        rw [List.map_cons, List.forall₂_cons_left_iff]
        constructor
        · rintro ⟨d, others, hd, hothers, rfl⟩
          rw [contains_single.mp hd, ih.mp hothers]
        · rintro rfl
          exact ⟨c, chars, contains_single.mpr rfl, ih.mpr rfl, rfl⟩
  constructor
  · intro h
    cases h with
    | oneOfEach h => exact hchars.mp h
  · exact fun h => .oneOfEach (hchars.mpr h)

theorem takes_sign {c : Char} {text : List Char} : (sign c).Takes text ↔ text = [c] := by
  refine ⟨Takes.eq_of_single, ?_⟩
  rintro rfl
  exact takes_char (contains_single.mpr rfl)

theorem takes_choice_spelling {names : List String} (hne : names ≠ []) {text : List Char} :
    (Pattern.choice (names.map spelling)).Takes text ↔ ∃ name ∈ names, text = name.toList := by
  induction names with
  | nil => exact absurd rfl hne
  | cons name names ih =>
      cases names with
      | nil => simp [choice, takes_spelling]
      | cons other others =>
          show (alt none (spelling name) (.choice ((other :: others).map spelling))).Takes text ↔ _
          rw [takes_alt, takes_spelling, ih (List.cons_ne_nil other others)]
          exact (List.exists_mem_cons_iff (text = ·.toList) name (other :: others)).symm

/-- A pattern of a call occurs in the texts that write such a call. The word characters around it do
not matter. -/
theorem occursIn_callWithin {names : List String} {parts : List Pattern}
    {inside : List Char → Prop} {groups : List String} (hne : names ≠ [])
    (hregular : (callWithin names parts).isRegular = true)
    (hinside : ∀ {text}, TakesEach parts text ↔ inside text) {text : String} :
    ((callWithin names parts).regex groups).occursIn text = true ↔
      Writes names inside text.toList := by
  rw [occursIn_iff hregular, callWithin]
  constructor
  · rintro ⟨before, taken, after, htext, htakes⟩
    obtain ⟨_, _, hopened, hrest, rfl⟩ := takes_foldl_seq.mp htakes
    obtain ⟨_, _, hfront, hopening, rfl⟩ := takes_seq.mp hopened
    obtain ⟨front, _, -, hname, rfl⟩ := takes_seq.mp hfront
    obtain ⟨name, hmem, rfl⟩ := (takes_choice_spelling hne).mp hname
    obtain ⟨inner, _, hinner, ⟨_, _, hclosing, ⟨back, _, -, rfl, rfl⟩, rfl⟩, rfl⟩ :=
      takesEach_append.mp hrest
    refine ⟨before ++ front, name, inner, back ++ after, hmem, hinside.mp hinner, ?_⟩
    rw [htext, takes_sign.mp hopening, takes_sign.mp hclosing]
    simp
  · rintro ⟨before, name, inner, after, hmem, hinner, htext⟩
    have hempty : words.Takes [] := .starDone
    refine ⟨before, name.toList ++ '(' :: (inner ++ [')']), after, ?_,
      takes_foldl_seq.mpr ⟨name.toList ++ ['('], inner ++ [')'], ?_, ?_, by simp⟩⟩
    · rw [htext]
      simp
    · exact .seq (.seq hempty ((takes_choice_spelling hne).mpr ⟨name, hmem, rfl⟩))
        (takes_sign.mpr rfl)
    · exact takesEach_append.mpr ⟨inner, [')'], hinside.mpr hinner,
        ⟨[')'], [], takes_sign.mpr rfl, ⟨[], [], hempty, rfl, rfl⟩, rfl⟩, rfl⟩

/-- What the built-in pattern for entangling takes between the parentheses. -/
def pairParts : List Pattern :=
  [.plus none true (.oneOfEach [wordSet]), sign ',', .plus none true (.oneOfEach [wordSet])]

/-- What the built-in pattern for the Hadamard gate takes between the parentheses. -/
def listParts : List Pattern :=
  [.alt none (.plus none true (.oneOfEach [wordSet]))
    (.plus none true ((words.seq (sign ',')).seq (.plus none true (.oneOfEach [wordSet]))))]

theorem takesEach_pairParts {text : List Char} : TakesEach pairParts text ↔ IsPair text := by
  constructor
  · rintro ⟨first, _, hfirst, ⟨_, _, hcomma, ⟨second, _, hsecond, rfl, rfl⟩, rfl⟩, rfl⟩
    refine ⟨first, second, takes_plus_set.mp hfirst, takes_plus_set.mp hsecond, ?_⟩
    rw [takes_sign.mp hcomma, List.append_nil]
    rfl
  · rintro ⟨first, second, hfirst, hsecond, rfl⟩
    exact ⟨first, _, takes_plus_set.mpr hfirst, ⟨[','], second, takes_sign.mpr rfl,
      ⟨second, [], takes_plus_set.mpr hsecond, rfl, (List.append_nil _).symm⟩, rfl⟩, rfl⟩

theorem takesEach_listParts {text : List Char} : TakesEach listParts text ↔ IsListed text := by
  have hpiece : ∀ {piece : List Char}, ((words.seq (sign ',')).seq
      (.plus none true (.oneOfEach [wordSet]))).Takes piece ↔
        ∃ first second, (∀ c ∈ first, isWord c = true) ∧ IsWords second ∧
          piece = first ++ ',' :: second := by
    intro piece
    constructor
    · intro h
      obtain ⟨_, second, hfront, hsecond, rfl⟩ := takes_seq.mp h
      obtain ⟨first, _, hfirst, hcomma, rfl⟩ := takes_seq.mp hfront
      refine ⟨first, second, takes_star_set.mp hfirst, takes_plus_set.mp hsecond, ?_⟩
      rw [takes_sign.mp hcomma, List.append_assoc]
      rfl
    · rintro ⟨first, second, hfirst, hsecond, rfl⟩
      rw [List.append_cons]
      exact .seq (.seq (takes_star_set.mpr hfirst) (takes_sign.mpr rfl))
        (takes_plus_set.mpr hsecond)
  have hsingle : TakesEach listParts text ↔ (Pattern.alt none
      (.plus none true (.oneOfEach [wordSet]))
      (.plus none true ((words.seq (sign ',')).seq
        (.plus none true (.oneOfEach [wordSet]))))).Takes text := by
    constructor
    · rintro ⟨_, _, htakes, rfl, rfl⟩
      rwa [List.append_nil]
    · exact fun htakes => ⟨text, [], htakes, rfl, (List.append_nil _).symm⟩
  rw [hsingle, takes_alt, takes_plus_set, takes_plus]
  simp only [hpiece]
  rfl

end Pattern

/-! ## The built-in challenges -/

/-- What the built-in patterns are read as. Their groups have no names. -/
theorem patterns_default : ChallengeBook.default.patterns =
    [(1, some ((Pattern.callWithin entangleSpellings Pattern.pairParts).regex [])),
     (2, some ((Pattern.callWithin hadamardSpellings Pattern.listParts).regex [])), (3, none)] := by
  have hpair : Pattern.engine.compile ChallengeBook.dialect
      "\\w*(ENTANGLE|E|e|entangle|Entangle)\\((\\w+,\\w+)\\)\\w*" =
        .ok ((Pattern.callWithin entangleSpellings Pattern.pairParts).regex []) :=
    Pattern.compile_of_read? (by decide +kernel)
  have hlist : Pattern.engine.compile ChallengeBook.dialect
      "\\w*(hadamard|h|H|HADAMARD)\\((\\w+|(\\w*,\\w+)+)\\)\\w*" =
        .ok ((Pattern.callWithin hadamardSpellings Pattern.listParts).regex []) :=
    Pattern.compile_of_read? (by decide +kernel)
  simp only [ChallengeBook.default, ChallengeBook.ofChallenges, ChallengeBook.ofChallengesWith,
    ChallengeBook.patterns, defaultChallenges, List.map_cons, List.map_nil, Option.bind_some,
    Option.bind_none, hpair, hlist]
  rfl

/-- Which of the first two challenges a line completes, in a book of the built-in ones. -/
theorem isAwarded_check_default {book : ChallengeBook}
    (hbook : book.patterns = ChallengeBook.default.patterns) (line : String) :
    ((book.check line).isAwarded 1 = true ↔
      book.isAwarded 1 = true ∨ Writes entangleSpellings IsPair line.toList) ∧
    ((book.check line).isAwarded 2 = true ↔
      book.isAwarded 2 = true ∨ Writes hadamardSpellings IsListed line.toList) := by
  have hpair : ((Pattern.callWithin entangleSpellings Pattern.pairParts).regex []).occursIn line =
      true ↔
      Writes entangleSpellings IsPair line.toList :=
    Pattern.occursIn_callWithin (List.cons_ne_nil _ _) rfl Pattern.takesEach_pairParts
  have hlist : ((Pattern.callWithin hadamardSpellings Pattern.listParts).regex []).occursIn line =
      true ↔
      Writes hadamardSpellings IsListed line.toList :=
    Pattern.occursIn_callWithin (List.cons_ne_nil _ _) rfl Pattern.takesEach_listParts
  rw [ChallengeBook.isAwarded_check, ChallengeBook.isAwarded_check, hbook, patterns_default,
    ← hpair, ← hlist]
  simp

end QubitScript
