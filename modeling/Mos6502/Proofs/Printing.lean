import Mos6502.Proofs.Tokens

/-! Reading back the tree of a value that has been written. On one line or on several, the text of a
value has the same tokens, and these build the tree of the value. Doubles are left out: how they are
written is another matter. -/
namespace Mos6502.Json

/-- What comes of a document whose tokens up to the given rest have led so far. -/
def Progress.resume : Progress → List Token → Document
  | .on want frames, rest => build want frames rest
  | .complete root, rest => { root, more := !rest.isEmpty }
  | .stuck root, _ => { root }

theorem build_cons (want : Want) (frames : List Frame) (t : Token) (rest : List Token) :
    build want frames (t :: rest) = (advance want frames t).resume rest := by
  rw [build]
  cases advance want frames t <;> rfl

/-- Where a value can come, every token begins one but the end of an array. -/
theorem advance_of_takesValue {want : Want} (hwant : want = .value ∨ want = .itemOrEnd)
    (frames : List Frame) {t : Token} (ht : t ≠ .endArray) :
    advance want frames t = begin want frames t := by
  obtain rfl | rfl := hwant
  · cases frames <;> rfl
  · cases frames with
    | nil => rfl
    | cons frame frames =>
      cases t with
      | endArray => exact absurd rfl ht
      | _ => rfl

theorem build_key {want : Want} (hwant : want = .key ∨ want = .keyOrEnd)
    (before : List (Literal × Node)) (frames : List Frame) (key : Literal) (rest : List Token) :
    build want (.object before :: frames) (.string key :: .colon :: rest) =
      build .value (.member before key :: frames) rest := by
  obtain rfl | rfl := hwant <;> rfl

namespace Value

mutual

def isExact : Value → Bool
  | .number n => n.isWhole
  | .array items => itemsExact items
  | .object fields => fieldsExact fields
  | _ => true

def itemsExact : List Value → Bool
  | [] => true
  | v :: rest => v.isExact && itemsExact rest

def fieldsExact : List (String × Value) → Bool
  | [] => true
  | (_, v) :: rest => v.isExact && fieldsExact rest

end

mutual

def node : Value → Node
  | .null => .null
  | .bool b => .bool b
  | .number n => .number (.ok n.numeral)
  | .string s => .string (.ofString s)
  | .array items => .array (itemNodes items) .closed
  | .object fields => .object (fieldNodes fields) .closed

def itemNodes : List Value → List Node
  | [] => []
  | v :: rest => v.node :: itemNodes rest

def fieldNodes : List (String × Value) → List (Literal × Node)
  | [] => []
  | (key, v) :: rest => (.ofString key, v.node) :: fieldNodes rest

end

mutual

def tokens : Value → List Token
  | .null => [.null]
  | .bool b => [.bool b]
  | .number n => [.number (.ok n.numeral)]
  | .string s => [.string (.ofString s)]
  | .array items => .beginArray :: (itemTokens items ++ [.endArray])
  | .object fields => .beginObject :: (fieldTokens fields ++ [.endObject])

def itemTokens : List Value → List Token
  | [] => []
  | [v] => v.tokens
  | v :: rest => v.tokens ++ .comma :: itemTokens rest

def fieldTokens : List (String × Value) → List Token
  | [] => []
  | [(key, v)] => .string (.ofString key) :: .colon :: v.tokens
  | (key, v) :: rest =>
    .string (.ofString key) :: .colon :: (v.tokens ++ .comma :: fieldTokens rest)

end

mutual

/-- The tokens of a value hand over its tree. -/
theorem build_tokens {want : Want} (hwant : want = .value ∨ want = .itemOrEnd) (frames : List Frame)
    (rest : List Token) :
    ∀ v : Value, build want frames (v.tokens ++ rest) = (hand v.node frames).resume rest
  | .null | .bool _ | .number _ | .string _ => by
    rw [tokens, List.singleton_append, build_cons, advance_of_takesValue hwant frames (by simp)]
    rfl
  | .array items => by
    have hbegin : build want frames ((Value.array items).tokens ++ rest) =
        build .itemOrEnd (.array [] :: frames) (itemTokens items ++ .endArray :: rest) := by
      rw [tokens, List.cons_append, List.append_assoc, List.singleton_append, build_cons,
        advance_of_takesValue hwant frames (by simp)]
      rfl
    rw [hbegin, build_itemTokens frames rest items [] (.inr rfl) fun _ => rfl]
    rfl
  | .object fields => by
    have hbegin : build want frames ((Value.object fields).tokens ++ rest) =
        build .keyOrEnd (.object [] :: frames) (fieldTokens fields ++ .endObject :: rest) := by
      rw [tokens, List.cons_append, List.append_assoc, List.singleton_append, build_cons,
        advance_of_takesValue hwant frames (by simp)]
      rfl
    rw [hbegin, build_fieldTokens frames rest fields [] (.inr rfl) fun _ => rfl]
    rfl

theorem build_itemTokens {want : Want} (frames : List Frame) (rest : List Token) :
    ∀ (items : List Value) (before : List Node), want = .value ∨ want = .itemOrEnd →
      (items = [] → want = .itemOrEnd) →
      build want (.array before :: frames) (itemTokens items ++ .endArray :: rest) =
        (hand (.array (before.reverse ++ itemNodes items) .closed) frames).resume rest
  | [], before, _, hempty => by
    obtain rfl := hempty rfl
    rw [itemTokens, List.nil_append, build_cons, itemNodes, List.append_nil]
    rfl
  | [v], before, hwant, _ => by
    rw [itemTokens, build_tokens hwant]
    change build .commaOrEnd (.array (v.node :: before) :: frames) _ = _
    rw [build_cons, advance, List.reverse_cons, itemNodes, itemNodes]
  | v :: w :: later, before, hwant, _ => by
    have hlater := build_itemTokens frames rest (w :: later) (v.node :: before) (.inl rfl)
      fun h => nomatch h
    rw [itemTokens, List.append_assoc, List.cons_append, build_tokens hwant]
    change build .commaOrEnd (.array (v.node :: before) :: frames) _ = _
    rw [build_cons, advance]
    · rw [List.reverse_cons, List.append_assoc] at hlater
      exact hlater
    · exact fun h => nomatch h

theorem build_fieldTokens {want : Want} (frames : List Frame) (rest : List Token) :
    ∀ (fields : List (String × Value)) (before : List (Literal × Node)),
      want = .key ∨ want = .keyOrEnd → (fields = [] → want = .keyOrEnd) →
      build want (.object before :: frames) (fieldTokens fields ++ .endObject :: rest) =
        (hand (.object (before.reverse ++ fieldNodes fields) .closed) frames).resume rest
  | [], before, _, hempty => by
    obtain rfl := hempty rfl
    rw [fieldTokens, List.nil_append, build_cons, fieldNodes, List.append_nil]
    rfl
  | [(key, v)], before, hwant, _ => by
    rw [fieldTokens, List.cons_append, List.cons_append, build_key hwant, build_tokens (.inl rfl)]
    change build .commaOrEnd (.object ((.ofString key, v.node) :: before) :: frames) _ = _
    rw [build_cons, advance, List.reverse_cons, fieldNodes, fieldNodes]
  | (key, v) :: w :: later, before, hwant, _ => by
    have hlater := build_fieldTokens frames rest (w :: later) ((.ofString key, v.node) :: before)
      (.inl rfl) fun h => nomatch h
    rw [fieldTokens, List.cons_append, List.cons_append, List.append_assoc, List.cons_append,
      build_key hwant, build_tokens (.inl rfl)]
    change build .commaOrEnd (.object ((.ofString key, v.node) :: before) :: frames) _ = _
    rw [build_cons, advance]
    · rw [List.reverse_cons, List.append_assoc] at hlater
      exact hlater
    · exact fun h => nomatch h

end

open Token

mutual

theorem writes_compact : ∀ v : Value, v.isExact = true → Writes v.compact v.tokens
  | .null, _ => writes_word rfl fun _ => rfl
  | .bool true, _ => writes_word rfl fun _ => rfl
  | .bool false, _ => writes_word rfl fun _ => rfl
  | .number _, hn => writes_number hn
  | .string s, _ => writes_string s
  | .array items, hv => (writes_compactItems items hv).array
  | .object fields, hv => (writes_compactFields fields hv).object

theorem writes_compactItems :
    ∀ items : List Value, itemsExact items = true → Writes (compactItems items) (itemTokens items)
  | [], _ => writes_nil
  | [v], hv => writes_compact v (Bool.and_eq_true_iff.1 hv).1
  | v :: w :: later, hv =>
    have hv := Bool.and_eq_true_iff.1 hv
    (writes_compact v hv.1).comma (writes_compactItems (w :: later) hv.2)

theorem writes_compactFields :
    ∀ fields : List (String × Value), fieldsExact fields = true →
      Writes (compactFields fields) (fieldTokens fields)
  | [], _ => writes_nil
  | [(key, v)], hv => (writes_compact v (Bool.and_eq_true_iff.1 hv).1).member key
  | (key, v) :: w :: later, hv =>
    have hv := Bool.and_eq_true_iff.1 hv
    ((writes_compact v hv.1).comma (writes_compactFields (w :: later) hv.2)).member key

end

mutual

theorem writes_indented (level : Nat) :
    ∀ v : Value, v.isExact = true → Writes (v.indented level) v.tokens
  | .null, _ => writes_word rfl fun _ => rfl
  | .bool true, _ => writes_word rfl fun _ => rfl
  | .bool false, _ => writes_word rfl fun _ => rfl
  | .number _, hn => writes_number hn
  | .string s, _ => writes_string s
  | .array [], _ => writes_nil.array
  | .object [], _ => writes_nil.object
  | .array (v :: rest), hv =>
    ((writes_indentedItems level (v :: rest) hv).append_newLine level).array
  | .object ((key, v) :: rest), hv =>
    ((writes_indentedFields level ((key, v) :: rest) hv).append_newLine level).object

theorem writes_indentedItems (level : Nat) :
    ∀ items : List Value, itemsExact items = true →
      Writes (indentedItems level items) (itemTokens items)
  | [], _ => writes_nil
  | [v], hv =>
    (writes_indented (level + 1) v (Bool.and_eq_true_iff.1 hv).1).newLine_append (level + 1)
  | v :: w :: later, hv =>
    have hv := Bool.and_eq_true_iff.1 hv
    ((writes_indented (level + 1) v hv.1).comma
      (writes_indentedItems level (w :: later) hv.2)).newLine_append (level + 1)

theorem writes_indentedFields (level : Nat) :
    ∀ fields : List (String × Value), fieldsExact fields = true →
      Writes (indentedFields level fields) (fieldTokens fields)
  | [], _ => writes_nil
  | [(key, v)], hv =>
    (((writes_indented (level + 1) v (Bool.and_eq_true_iff.1 hv).1).space rfl).member key
      ).newLine_append (level + 1)
  | (key, v) :: w :: later, hv =>
    have hv := Bool.and_eq_true_iff.1 hv
    ((((writes_indented (level + 1) v hv.1).comma
      (writes_indentedFields level (w :: later) hv.2)).space rfl).member key).newLine_append (level + 1)

end

/-- What has the tokens of a value is read as the value. -/
theorem ofText_of_writes {v : Value} {text : List Char} (h : Writes text v.tokens) :
    Document.ofText (String.ofList text) = { root := v.node } := by
  have hbuilt := build_tokens (.inl rfl) [] [] v
  rw [List.append_nil] at hbuilt
  rw [Document.ofText, Document.ofTokens, String.toList_ofList, h.ofText_eq, hbuilt]
  rfl

theorem ofText_compactText {v : Value} (hv : v.isExact = true) :
    Document.ofText v.compactText = { root := v.node } :=
  ofText_of_writes (writes_compact v hv)

theorem ofText_prettyText {v : Value} (hv : v.isExact = true) :
    Document.ofText v.prettyText = { root := v.node } :=
  ofText_of_writes (writes_indented 0 v hv)

end Value
end Mos6502.Json
