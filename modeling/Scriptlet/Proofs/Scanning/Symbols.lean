import Mathlib.Data.List.TakeWhile
import Scriptlet.Token.Scan

/-! Which symbols texts are cut into. A piece is taken as long as its characters fit, so a token is
the text of a symbol, with nothing behind it that would make it longer. -/

namespace Scriptlet

namespace Symbol

open Lexeme

/-- Whether a text is a name: it starts and goes on like one, and it is no keyword. -/
def isName (text : String) : Bool :=
  match text.toList with
  | [] => false
  | c :: cs => isNameStart c && cs.all isNameRest && (Keyword.ofText? text).isNone

def isNumeral (text : String) : Bool := !text.toList.isEmpty && text.toList.all Char.isDigit

theorem isName_iff {text : String} :
    isName text = true ↔ ∃ c t, text.toList = c :: t ∧ isNameStart c = true ∧
      (∀ d ∈ t, isNameRest d = true) ∧ Keyword.ofText? text = none := by
  unfold isName
  cases text.toList <;> simp [and_assoc]

theorem isNumeral_iff {text : String} :
    isNumeral text = true ↔ ∃ c t, text.toList = c :: t ∧ c.isDigit = true ∧
      ∀ d ∈ t, d.isDigit = true := by
  unfold isNumeral
  cases text.toList <;> simp [and_assoc]

/-- Whether a symbol can be written: as a name that is one, and as a number that has digits. -/
def isProper : Symbol → Bool
  | .name text => isName text
  | .number digits => isNumeral digits
  | _ => true

/-- Whether a character right behind a symbol would become a part of it. -/
def extendedBy : Symbol → Char → Bool
  | .name _, c | .keyword _, c => isNameRest c
  | .number _, c => c.isDigit
  | .assign, c | .operator .gt, c | .operator .lt, c => c == '='
  | .operator .div, c => c == '/'
  | _, _ => false

/-- A text that does not make a symbol before it longer. -/
def Ends (s : Symbol) (rest : List Char) : Prop := ∀ c ∈ rest.head?, s.extendedBy c = false

theorem ends_nil (s : Symbol) : s.Ends [] := by simp [Ends]

@[simp] theorem ends_cons {s : Symbol} {c : Char} {rest : List Char} :
    s.Ends (c :: rest) ↔ s.extendedBy c = false := by simp [Ends]

/-- Where no more characters fit, the next one does not. -/
theorem fits_head?_dropWhile (fits : Char → Bool) (cs : List Char) :
    ∀ c ∈ (cs.dropWhile fits).head?, fits c = false := by
  intro c hc
  have hnot := List.head?_dropWhile_not fits cs
  rw [Option.mem_def.mp hc] at hnot
  simpa using hnot

theorem ends_dropWhile {s : Symbol} {fits : Char → Bool} (hs : ∀ c, s.extendedBy c = fits c)
    (cs : List Char) : s.Ends (cs.dropWhile fits) := by
  intro c hc
  rw [hs, fits_head?_dropWhile fits cs c hc]

theorem keyword_text_of_ofText? {word : String} {k : Keyword} (h : Keyword.ofText? word = some k) :
    k.text = word := by
  simpa using List.find?_some h

/-- A word is written as it is. -/
theorem text_ofWord (word : String) : (ofWord word).text = word := by
  unfold ofWord
  cases h : Keyword.ofText? word with
  | none => rfl
  | some k => exact keyword_text_of_ofText? h

end Symbol

namespace Lexeme

open Scriptlet.Symbol

variable {c : Char} {cs t r : List Char} {s : Symbol}

/-- What fits is taken if nothing behind it fits. -/
theorem takeWhile_dropWhile_append {fits : Char → Bool} (ht : ∀ d ∈ t, fits d = true)
    (hr : ∀ d ∈ r.head?, fits d = false) :
    (t ++ r).takeWhile fits = t ∧ (t ++ r).dropWhile fits = r := by
  rw [List.takeWhile_append_of_pos ht, List.dropWhile_append_of_pos ht]
  cases r with
  | nil => simp
  | cons d r => simp [hr d rfl]

/-- A run of characters is what fits and has nothing behind it that fits. -/
theorem run_eq_iff {fits : Char → Bool} {symbol : List Char → Option Symbol} {o : Option Symbol} :
    run fits symbol c cs = ⟨o, t, r⟩ ↔
      ∃ ts, t = c :: ts ∧ symbol t = o ∧ cs = ts ++ r ∧ (∀ d ∈ ts, fits d = true) ∧
        ∀ d ∈ r.head?, fits d = false := by
  constructor
  · intro h
    obtain ⟨hs, rfl, rfl⟩ := Cut.mk.inj h
    exact ⟨_, rfl, hs, List.takeWhile_append_dropWhile.symm,
      fun d hd => List.mem_takeWhile_imp hd, fits_head?_dropWhile fits cs⟩
  · rintro ⟨ts, rfl, hs, rfl, hts, hr⟩
    obtain ⟨htake, hdrop⟩ := takeWhile_dropWhile_append hts hr
    simp [run, htake, hdrop, hs]

/-! ### Words and numerals -/

theorem isBlank_eq_false_of_isNameRest (hc : isNameRest c = true) : isBlank c = false := by
  rw [Bool.eq_false_iff]
  intro hb
  simp only [isBlank, Bool.or_eq_true, beq_iff_eq] at hb
  rcases hb with (((rfl | rfl) | rfl) | rfl) | rfl <;> exact absurd hc (by decide)

theorem isNameStart_eq_false_of_isDigit (hc : c.isDigit = true) : isNameStart c = false := by
  rw [Bool.eq_false_iff]
  intro hs
  have hdigit : 48 ≤ c.toNat ∧ c.toNat ≤ 57 := by
    simpa [Char.isDigit, UInt32.le_iff_toNat_le, ← Char.toNat_val] using hc
  change (decide (c.val ≥ 'A'.val ∧ c.val ≤ 'Z'.val) ||
    (c.val ≥ 'a'.val && c.val ≤ 'z'.val) || c == '_' || c == '$') = true at hs
  simp only [Bool.or_eq_true, beq_iff_eq] at hs
  rcases hs with ((hs | hs) | rfl) | rfl
  · simp [UInt32.le_iff_toNat_le] at hs
    omega
  · simp [UInt32.le_iff_toNat_le] at hs
    omega
  · exact absurd hc (by decide)
  · exact absurd hc (by decide)

theorem cut?_word (hc : isNameStart c = true) (ht : ∀ d ∈ t, isNameRest d = true)
    (hr : ∀ d ∈ r.head?, isNameRest d = false) :
    cut? (c :: t ++ r) = some ⟨some (ofWord (String.ofList (c :: t))), c :: t, r⟩ := by
  have hblank : isBlank c = false := isBlank_eq_false_of_isNameRest (by simp [isNameRest, hc])
  simp only [cut?, List.cons_append, hblank, hc, Bool.false_eq_true, if_false, if_true]
  rw [run_eq_iff.mpr ⟨t, rfl, rfl, rfl, ht, hr⟩]

theorem cut?_numeral (hc : c.isDigit = true) (ht : ∀ d ∈ t, d.isDigit = true)
    (hr : ∀ d ∈ r.head?, d.isDigit = false) :
    cut? (c :: t ++ r) = some ⟨some (.number (String.ofList (c :: t))), c :: t, r⟩ := by
  have hblank : isBlank c = false := isBlank_eq_false_of_isNameRest (by simp [isNameRest, hc])
  have hstart := isNameStart_eq_false_of_isDigit hc
  simp only [cut?, List.cons_append, hblank, hstart, hc, Bool.false_eq_true, if_false, if_true]
  rw [run_eq_iff.mpr ⟨t, rfl, rfl, rfl, ht, hr⟩]

/-- Keywords are words. -/
theorem keyword_text (k : Keyword) :
    ∃ c t, k.text.toList = c :: t ∧ isNameStart c = true ∧ ∀ d ∈ t, isNameRest d = true := by
  cases k <;> exact ⟨_, _, rfl, by decide, List.all_eq_true.mp (by decide)⟩

theorem proper_word (hc : isNameStart c = true) (ht : ∀ d ∈ t, isNameRest d = true) :
    (ofWord (String.ofList (c :: t))).isProper = true := by
  unfold ofWord
  cases h : Keyword.ofText? (String.ofList (c :: t)) with
  | none => exact isName_iff.mpr ⟨c, t, String.toList_ofList, hc, ht, h⟩
  | some k => rfl

theorem extendedBy_word (word : String) (d : Char) : (ofWord word).extendedBy d = isNameRest d := by
  unfold ofWord
  cases Keyword.ofText? word <;> rfl

/-! ### Tokens -/

theorem sign?_eq_token {piece : Cut} (h : sign? c cs = some piece) (hs : piece.symbol = some s) :
    s.isProper = true ∧ piece.text = s.text.toList ∧ s.Ends piece.rest := by
  unfold sign? at h
  split at h <;> cases h <;> cases hs
  -- a sign that might be the first of two has no second one behind it
  case h_5 hsecond | h_6 hsecond | h_7 hsecond | h_11 hsecond =>
    refine ⟨rfl, rfl, ?_⟩
    cases cs with
    | nil => exact ends_nil _
    | cons d cs =>
      rw [ends_cons]
      exact beq_eq_false_iff_ne.mpr fun hd => hsecond cs (by rw [hd])
  all_goals exact ⟨rfl, rfl, fun _ _ => rfl⟩

theorem cut?_eq_token {piece : Cut} (h : cut? cs = some piece) (hs : piece.symbol = some s) :
    s.isProper = true ∧ piece.text = s.text.toList ∧ s.Ends piece.rest := by
  cases cs with
  | nil => cases h
  | cons c cs =>
    simp only [cut?] at h
    split at h
    · cases h
      cases hs
    · split at h
      case isTrue hc =>
        cases h
        cases hs
        refine ⟨proper_word hc fun d hd => List.mem_takeWhile_imp hd, ?_,
          ends_dropWhile (extendedBy_word _) cs⟩
        rw [text_ofWord, String.toList_ofList]
        rfl
      · split at h
        case isTrue hc =>
          cases h
          cases hs
          refine ⟨?_, String.toList_ofList.symm, ends_dropWhile (fun _ => rfl) cs⟩
          exact isNumeral_iff.mpr ⟨c, _, String.toList_ofList, hc,
            fun d hd => List.mem_takeWhile_imp hd⟩
        · exact sign?_eq_token h hs

/-- A sign that might be the first of two is taken alone if its second does not follow. -/
theorem cut?_first (hs : s = .assign ∨ s = .operator .gt ∨ s = .operator .lt ∨ s = .operator .div)
    (hr : s.Ends r) : cut? (s.text.toList ++ r) = some ⟨some s, s.text.toList, r⟩ := by
  cases r with
  | nil => rcases hs with rfl | rfl | rfl | rfl <;> rfl
  | cons d r =>
    rw [ends_cons] at hr
    rcases hs with rfl | rfl | rfl | rfl
    · change sign? '=' (d :: r) = _
      simp [sign?, beq_eq_false_iff_ne.mp hr]
      rfl
    · change sign? '>' (d :: r) = _
      simp [sign?, beq_eq_false_iff_ne.mp hr]
      rfl
    · change sign? '<' (d :: r) = _
      simp [sign?, beq_eq_false_iff_ne.mp hr]
      rfl
    · change sign? '/' (d :: r) = _
      simp [sign?, beq_eq_false_iff_ne.mp hr]
      rfl

/-- A token is cut off a text if it stands at its front and nothing behind makes it longer. -/
theorem cut?_eq_token_iff :
    cut? cs = some ⟨some s, t, r⟩ ↔
      s.isProper = true ∧ t = s.text.toList ∧ cs = t ++ r ∧ s.Ends r := by
  constructor
  · intro h
    obtain ⟨hs, ht, hr⟩ := cut?_eq_token h rfl
    exact ⟨hs, ht, (cut?_eq h).symm, hr⟩
  · rintro ⟨hs, rfl, rfl, hr⟩
    cases s with
    | number digits =>
      obtain ⟨c, t, hdigits, hc, ht⟩ := isNumeral_iff.mp hs
      have hcut := cut?_numeral hc ht hr
      rwa [← hdigits, String.ofList_toList] at hcut
    | name word =>
      obtain ⟨c, t, hword, hc, ht, hnone⟩ := isName_iff.mp hs
      have hcut := cut?_word hc ht hr
      rwa [← hword, String.ofList_toList, ofWord, hnone] at hcut
    | keyword k =>
      obtain ⟨c, t, hword, hc, ht⟩ := keyword_text k
      have hcut := cut?_word hc ht hr
      rwa [← hword, String.ofList_toList, ofWord, Keyword.ofText?_text] at hcut
    | operator op =>
      cases op with
      | gt | lt | div => exact cut?_first (by simp) hr
      | _ => rfl
    | assign => exact cut?_first (by simp) hr
    | _ => rfl

/-- No blank is a part of a token. -/
theorem isBlank_eq_false_of_mem_text (hs : s.isProper = true) :
    ∀ d ∈ s.text.toList, isBlank d = false := by
  have hword {c : Char} {t : List Char} (hc : isNameStart c = true)
      (ht : ∀ d ∈ t, isNameRest d = true) : ∀ d ∈ c :: t, isBlank d = false :=
    List.forall_mem_cons.mpr ⟨isBlank_eq_false_of_isNameRest (by simp [isNameRest, hc]),
      fun d hd => isBlank_eq_false_of_isNameRest (ht d hd)⟩
  cases s with
  | number digits =>
    simp only [isProper, isNumeral, Bool.and_eq_true, List.all_eq_true] at hs
    exact fun d hd => isBlank_eq_false_of_isNameRest (by simp [isNameRest, hs.2 d hd])
  | name word =>
    obtain ⟨c, t, htext, hc, ht, -⟩ := isName_iff.mp hs
    rw [Symbol.text, htext]
    exact hword hc ht
  | keyword k =>
    obtain ⟨c, t, htext, hc, ht⟩ := keyword_text k
    rw [Symbol.text, htext]
    exact hword hc ht
  | operator op => cases op <;> simp [Symbol.text, Operator.symbol, isBlank]
  | _ => simp [Symbol.text, isBlank]

end Lexeme

end Scriptlet
