import Mos6502.Json.Tree
import Mos6502.Json.Value

/-! Reading back the tokens of what has been written. A literal gives back its characters, whichever
way each of them is escaped, and a whole number gives back its digits, if no more of them follow. So
the text of a value, on one line or on several, gives back the tokens of the value: the spaces are
all that is lost. -/
namespace Mos6502.Json

def pieceOf (c : Char) : Piece :=
  if c.toNat < 0x20 ∧ c ∉ ['\x08', '\x0c', '\n', '\r', '\t'] then .code c.toNat else .char c

namespace Literal

def ofString (s : String) : Literal := ⟨s.toList.map pieceOf, none⟩

theorem hexCode?_of_lt {n : Nat} (h : n < 0x20) :
    hexCode? '0' '0' (Text.hexDigit (n / 16)).toLower (Text.hexDigit (n % 16)).toLower = some n := by
  have hall : ∀ i : Fin 0x20, hexCode? '0' '0' (Text.hexDigit (i / 16)).toLower
      (Text.hexDigit (i % 16)).toLower = some i.val := by decide
  exact hall ⟨n, h⟩

/-- However a character is escaped, it is read as its piece. -/
theorem scanPieces_escapeChar (c : Char) (rest : List Char) :
    scanPieces (escapeChar c ++ rest) = (pieceOf c :: (scanPieces rest).1, (scanPieces rest).2) := by
  unfold escapeChar
  split
  all_goals try rfl
  rename_i hquote hbackslash hb hf hn hr ht
  split
  · rename_i hcontrol
    have hpiece : pieceOf c = .code c.toNat := if_pos ⟨hcontrol, by simp_all⟩
    simp only [List.cons_append, List.nil_append, scanPieces, hexCode?_of_lt hcontrol, hpiece]
  · rename_i hplain
    have hpiece : pieceOf c = .char c := if_neg (by simp [hplain])
    rw [List.singleton_append, scanPieces, if_neg hplain, hpiece] <;> simp_all

theorem scanPieces_literal (cs rest : List Char) :
    scanPieces (cs.flatMap escapeChar ++ '"' :: rest) = (cs.map pieceOf, .ok rest) := by
  induction cs with
  | nil => rfl
  | cons c cs ih =>
    rw [List.flatMap_cons, List.append_assoc, scanPieces_escapeChar, ih]
    rfl

theorem join_code {n : Nat} (h : n < 0x20) (rest : List Piece) :
    join none (.code n :: rest) = (join none rest).map (Char.ofNat n :: ·) := by
  have hleading : isLeading n = false := by simp [isLeading]; omega
  have htrailing : isTrailing n = false := by simp [isTrailing]; omega
  cases rest with
  | nil => simp [join, hleading, htrailing]
  | cons p rest => cases p <;> simp [join, hleading, htrailing]

theorem join_pieces (cs : List Char) : join none (cs.map pieceOf) = .ok cs := by
  induction cs with
  | nil => rfl
  | cons c cs ih =>
    rw [List.map_cons]
    by_cases hcode : c.toNat < 0x20 ∧ c ∉ ['\x08', '\x0c', '\n', '\r', '\t']
    · rw [pieceOf, if_pos hcode, join_code hcode.1, ih, Char.ofNat_toNat]
      rfl
    · rw [pieceOf, if_neg hcode, join, ih]
      rfl

/-- A text that is written comes back. -/
@[simp] theorem content_ofString (s : String) : (ofString s).content = .ok s := by
  rw [content, ofString, join_pieces]
  exact congrArg Except.ok s.ofList_toList

@[simp] theorem flaw_ofString (s : String) : (ofString s).flaw = none := rfl

end Literal

/-- Whether what follows cannot be taken for more of a number. -/
def Delimited (text : List Char) : Prop :=
  ∀ c ∈ text.head?, digit? c = none ∧ c ∉ ['.', 'e', 'E']

namespace Numeral

/-- The digits of a number, the first not a zero unless it is the only one. -/
def digits (n : Nat) : List Nat := (Nat.toDigits 10 n).map fun c => c.toNat - 48

theorem digits_of_lt {n : Nat} (h : n < 10) : digits n = [n] := by
  rw [digits, Nat.toDigits_of_lt_base h, List.map_singleton, Nat.toNat_digitChar_sub_48_of_lt_ten h]

theorem digits_of_le {n : Nat} (h : 10 ≤ n) : digits n = digits (n / 10) ++ [n % 10] := by
  rw [digits, Nat.toDigits_of_base_le (by decide) h, List.map_append, List.map_singleton,
    Nat.toNat_digitChar_sub_48_of_lt_ten (Nat.mod_lt n (by decide))]
  rfl

theorem digits_induction {P : Nat → Prop} (hlow : ∀ n < 10, P n)
    (hhigh : ∀ n, 10 ≤ n → P (n / 10) → P n) (n : Nat) : P n := by
  induction n using Nat.strongRecOn with
  | ind n ih =>
    by_cases h : n < 10
    · exact hlow n h
    · exact hhigh n (by omega) (ih (n / 10) (by omega))

theorem exists_digits_eq_cons (n : Nat) :
    ∃ d rest, digits n = d :: rest ∧ (d = 0 → rest = []) := by
  have hfirst : ∃ d rest, digits n = d :: rest ∧ (d = 0 → n = 0 ∧ rest = []) := by
    induction n using digits_induction with
    | hlow n h => exact ⟨n, [], digits_of_lt h, fun h => ⟨h, rfl⟩⟩
    | hhigh n h ih =>
      obtain ⟨d, rest, hd, hzero⟩ := ih
      exact ⟨d, rest ++ [n % 10], by rw [digits_of_le h, hd]; rfl, fun h0 => by
        have := (hzero h0).1
        omega⟩
  obtain ⟨d, rest, hd, hzero⟩ := hfirst
  exact ⟨d, rest, hd, fun h => (hzero h).2⟩

theorem appendDigits_snoc {k : Nat} (d : Nat) {ds : List Nat} :
    ∀ {m : Nat}, appendDigits m ds = (k, []) → k * 10 + d < wholeLimit →
      appendDigits m (ds ++ [d]) = (k * 10 + d, []) := by
  induction ds with
  | nil =>
    intro m hk hlimit
    obtain ⟨rfl, -⟩ := Prod.mk.inj hk
    simp [appendDigits, hlimit]
  | cons first rest ih =>
    intro m hk hlimit
    simp only [appendDigits, List.cons_append] at hk ⊢
    split at hk
    · rename_i hfits
      rw [if_pos hfits]
      exact ih hk hlimit
    · simp at hk

theorem appendDigits_digits (n : Nat) (h : n < wholeLimit) : appendDigits 0 (digits n) = (n, []) := by
  induction n using digits_induction with
  | hlow n hn => simp [digits_of_lt hn, appendDigits, h]
  | hhigh n hn ih =>
    have hsplit : n / 10 * 10 + n % 10 = n := by omega
    rw [digits_of_le hn, appendDigits_snoc (n % 10) (ih (by omega)) (by rwa [hsplit]), hsplit]

def ofNat (n : Nat) : Numeral := { whole := digits n }

theorem value_ofNat {n : Nat} (h : n < wholeLimit) : (ofNat n).value = .ok (.natural n) := by
  simp [value, ofNat, appendDigits_digits n h]

theorem digit?_digitChar {d : Nat} (h : d < 10) : digit? (Nat.digitChar d) = some d := by
  have hall : ∀ i : Fin 10, digit? (Nat.digitChar i) = some i.val := by decide
  exact hall ⟨d, h⟩

theorem takeDigits_delimited {rest : List Char} (h : Delimited rest) :
    takeDigits rest = ([], rest) := by
  cases rest with
  | nil => rfl
  | cons c rest => rw [takeDigits, (h c rfl).1]

theorem takeDigits_digitChar {d : Nat} (h : d < 10) (rest : List Char) :
    takeDigits (Nat.digitChar d :: rest) = (d :: (takeDigits rest).1, (takeDigits rest).2) := by
  rw [takeDigits, digit?_digitChar h]

theorem takeDigits_toDigits (n : Nat) (rest : List Char) :
    takeDigits (Nat.toDigits 10 n ++ rest) =
      (digits n ++ (takeDigits rest).1, (takeDigits rest).2) := by
  induction n using digits_induction generalizing rest with
  | hlow n h =>
    rw [digits_of_lt h, Nat.toDigits_of_lt_base h, List.singleton_append, takeDigits_digitChar h]
    rfl
  | hhigh n h ih =>
    rw [digits_of_le h, Nat.toDigits_of_base_le (by decide) h, List.append_assoc,
      List.singleton_append, ih, takeDigits_digitChar (Nat.mod_lt n (by decide)), List.append_assoc]
    rfl

theorem scanFraction_delimited {rest : List Char} (h : Delimited rest) (n : Numeral) :
    scanFraction n rest = .ok (n, rest) := by
  cases rest with
  | nil => rfl
  | cons c rest =>
    have hc := (h c rfl).2
    simp only [List.mem_cons, List.not_mem_nil, or_false, not_or] at hc
    have hnone : scanFraction n (c :: rest) = scanExponent n (c :: rest) := by
      rw [scanFraction]
      intro _ heq
      exact hc.1 (List.cons.inj heq).1
    exact hnone.trans (if_neg (not_or.2 hc.2))

theorem exists_toDigits_eq_cons (n : Nat) :
    ∃ c rest, (digit? c).isSome ∧ Nat.toDigits 10 n = c :: rest := by
  have hdigit {d : Nat} (h : d < 10) : (digit? (Nat.digitChar d)).isSome := by
    rw [digit?_digitChar h]
    rfl
  induction n using digits_induction with
  | hlow n h => exact ⟨_, [], hdigit h, Nat.toDigits_of_lt_base h⟩
  | hhigh n h ih =>
    obtain ⟨c, rest, hc, hn⟩ := ih
    refine ⟨c, rest ++ [Nat.digitChar (n % 10)], hc, ?_⟩
    rw [Nat.toDigits_of_base_le (by decide) h, hn]
    rfl

theorem scan_toDigits {rest : List Char} (h : Delimited rest) (negative : Bool) (n : Nat) :
    scan ((if negative then ['-'] else []) ++ (Nat.toDigits 10 n ++ rest)) =
      .ok ({ negative, whole := digits n }, rest) := by
  obtain ⟨c, after, hc, hn⟩ := exists_toDigits_eq_cons n
  have hsign : c ≠ '-' := by
    rintro rfl
    exact absurd hc (by decide)
  obtain ⟨d, others, hdigits, hzero⟩ := exists_digits_eq_cons n
  have htaken := takeDigits_toDigits n rest
  rw [takeDigits_delimited h, List.append_nil] at htaken
  have hwhole : scan ((if negative then ['-'] else []) ++ (Nat.toDigits 10 n ++ rest)) =
      scanFraction { negative, whole := digits n } rest := by
    rw [hdigits, hn, List.cons_append] at htaken
    rw [hdigits, hn, List.cons_append]
    have hpasses : d ≠ 0 ∨ others = [] := (Decidable.em (d = 0)).symm.imp_right hzero
    cases negative <;>
      simp only [scan, Bool.false_eq_true, if_true, if_false, List.nil_append, List.cons_append,
        List.cons.injEq, hsign, false_and, imp_false, not_false_eq_true, implies_true, htaken]
    all_goals
      obtain hd | rfl := hpasses
      · cases d with
        | zero => exact absurd rfl hd
        | succ d => rfl
      · cases d <;> rfl
  rw [hwhole, scanFraction_delimited h]

end Numeral

def Number.numeral : Number → Numeral
  | .natural n => .ofNat n
  | .negative n => { Numeral.ofNat n with negative := true }
  | .float _ => { whole := [] }

def Number.isWhole : Number → Bool
  | .float _ => false
  | _ => true

namespace Token
variable {text rest : List Char} {ts : List Token}

theorem isSpace_of_digit {c : Char} (hc : (digit? c).isSome) : isSpace c = false := by
  refine Bool.eq_false_iff.2 fun hspace => ?_
  simp only [isSpace, Bool.or_eq_true, beq_iff_eq] at hspace
  rcases hspace with ((rfl | rfl) | rfl) | rfl <;> exact absurd hc (by decide)

theorem scan_of_numeral {c : Char} (hc : c = '-' ∨ (digit? c).isSome) {n : Numeral}
    (hn : Numeral.scan (c :: rest) = .ok (n, text)) :
    scan c rest = (.number (.ok n), some text) := by
  unfold scan
  split
  all_goals try exact absurd hc (by decide)
  rw [if_pos hc, hn]

/-- Whether a text has these tokens, however much longer than the text the search for them may be. -/
def Spells (text : List Char) (ts : List Token) : Prop :=
  ∀ fuel, text.length ≤ fuel → scanAll fuel text = ts

theorem spells_nil : Spells [] [] := fun fuel _ => by cases fuel <;> rfl

namespace Spells

theorem space (h : Spells text ts) {c : Char} (hc : isSpace c = true) : Spells (c :: text) ts := by
  intro fuel hfuel
  obtain ⟨fuel, rfl⟩ := Nat.exists_eq_succ_of_ne_zero (Nat.ne_of_gt (Nat.zero_lt_of_lt hfuel))
  rw [scanAll, if_pos hc]
  exact h fuel (Nat.le_of_succ_le_succ hfuel)

/-- Where a line begins does not matter. -/
theorem newLine (h : Spells text ts) (level : Nat) : Spells (Value.newLine level ++ text) ts := by
  refine space ?_ rfl
  induction 2 * level with
  | zero => exact h
  | succ n ih => exact ih.space rfl

theorem token (h : Spells text ts) {c : Char} {t : Token} (hc : isSpace c = false)
    (hscan : scan c rest = (t, some text)) (hlength : text.length ≤ rest.length) :
    Spells (c :: rest) (t :: ts) := by
  intro fuel hfuel
  obtain ⟨fuel, rfl⟩ := Nat.exists_eq_succ_of_ne_zero (Nat.ne_of_gt (Nat.zero_lt_of_lt hfuel))
  have hlater : text.length ≤ fuel := Nat.le_trans hlength (Nat.le_of_succ_le_succ hfuel)
  rw [scanAll, if_neg (by simp [hc]), hscan]
  exact congrArg (t :: ·) (h fuel hlater)

end Spells

theorem delimited_cons {c : Char} (hc : digit? c = none ∧ c ∉ ['.', 'e', 'E']) (rest : List Char) :
    Delimited (c :: rest) := fun _ h => Option.some.inj h ▸ hc

/-- Whether a text is read as these tokens wherever it is not followed by more of a number. -/
def Writes (text : List Char) (ts : List Token) : Prop :=
  ∀ (rest : List Char) (us : List Token), Spells rest us → Delimited rest →
    Spells (text ++ rest) (ts ++ us)

theorem writes_nil : Writes [] [] := fun _ _ h _ => h

theorem writes_word {c : Char} {w : List Char} {t : Token} (hc : isSpace c = false)
    (hscan : ∀ rest, scan c (w ++ rest) = (t, some rest)) : Writes (c :: w) [t] := fun rest _ h _ =>
  h.token hc (hscan rest) (by simp)

theorem spells_string {us : List Token} (h : Spells rest us) (s : String) :
    Spells (literalText s ++ rest) (.string (.ofString s) :: us) := by
  rw [literalText, List.cons_append]
  refine h.token rfl ?_ (by rw [List.length_append]; omega)
  have hpieces := Literal.scanPieces_literal s.toList rest
  rw [scan, Literal.scan, List.append_assoc, List.singleton_append, hpieces]
  rfl

theorem writes_string (s : String) : Writes (literalText s) [.string (.ofString s)] :=
  fun _ _ h _ => spells_string h s

theorem writes_number {n : Number} (hn : n.isWhole = true) :
    Writes n.text.toList [.number (.ok n.numeral)] := by
  intro rest us h hd
  cases n with
  | natural n =>
    obtain ⟨c, after, hc, hdigits⟩ := Numeral.exists_toDigits_eq_cons n
    have hscan := Numeral.scan_toDigits hd false n
    rw [Number.text, Nat.toString_eq_ofList_toDigits, String.toList_ofList]
    rw [hdigits, List.cons_append] at hscan ⊢
    exact h.token (isSpace_of_digit hc) (scan_of_numeral (.inr hc) hscan) (by simp)
  | negative n =>
    have hscan := Numeral.scan_toDigits hd true n
    have htext : (Number.negative n).text.toList = '-' :: Nat.toDigits 10 n := by
      rw [Number.text, Nat.toString_eq_ofList_toDigits]
      simp
    rw [htext, List.cons_append]
    exact h.token rfl (scan_of_numeral (.inl rfl) hscan) (by simp)
  | float x => exact absurd hn Bool.noConfusion

namespace Writes
variable {after : List Char} {us : List Token} (h : Writes text ts)
include h

theorem ofText_eq : ofText text = ts := by
  have hall := h [] [] spells_nil fun c hc => nomatch hc
  rw [List.append_nil, List.append_nil] at hall
  exact hall text.length (Nat.le_refl _)

theorem comma (hlater : Writes after us) : Writes (text ++ ',' :: after) (ts ++ .comma :: us) := by
  intro rest vs hrest hd
  have hcomma := (hlater rest vs hrest hd).token (c := ',') rfl rfl (Nat.le_refl _)
  rw [List.append_assoc, List.append_assoc]
  exact h _ _ hcomma (delimited_cons (by decide) _)

theorem array : Writes ('[' :: (text ++ [']'])) (.beginArray :: (ts ++ [.endArray])) := by
  intro rest us hrest _
  have hclose := hrest.token (c := ']') rfl rfl (Nat.le_refl _)
  rw [List.cons_append, List.cons_append, List.append_assoc, List.append_assoc]
  exact (h _ _ hclose (delimited_cons (by decide) _)).token rfl rfl (Nat.le_refl _)

theorem object : Writes ('\x7b' :: (text ++ ['\x7d'])) (.beginObject :: (ts ++ [.endObject])) := by
  intro rest us hrest _
  have hclose := hrest.token (c := '\x7d') rfl rfl (Nat.le_refl _)
  rw [List.cons_append, List.cons_append, List.append_assoc, List.append_assoc]
  exact (h _ _ hclose (delimited_cons (by decide) _)).token rfl rfl (Nat.le_refl _)

theorem member (key : String) :
    Writes (literalText key ++ ':' :: text) (.string (.ofString key) :: .colon :: ts) := by
  intro rest us hrest hd
  have hcolon := (h rest us hrest hd).token (c := ':') rfl rfl (Nat.le_refl _)
  rw [List.append_assoc]
  exact spells_string hcolon key

theorem space {c : Char} (hc : isSpace c = true) : Writes (c :: text) ts :=
  fun rest us hrest hd => (h rest us hrest hd).space hc

theorem newLine_append (level : Nat) : Writes (Value.newLine level ++ text) ts := by
  intro rest us hrest hd
  rw [List.append_assoc]
  exact (h rest us hrest hd).newLine level

theorem append_newLine (level : Nat) : Writes (text ++ Value.newLine level) ts := by
  intro rest us hrest _
  rw [List.append_assoc]
  exact h _ _ (hrest.newLine level) (delimited_cons (by decide) _)

end Writes
end Token
end Mos6502.Json
