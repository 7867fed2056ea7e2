import Mathlib

/-!
# Tables that are searched by prefix

A text is looked up in a table by the names of its entries: the first entry wins whose name the
text starts with. As long as the text starts with one name at most, the entry found is the most
specific one, and the order of the table does not matter. Nothing in this file refers to a
particular program.
-/

namespace NetBmp
namespace PrefixTable

variable {α β : Type} {name : α → List β} {table : List α} {text : List β}

/-- The entry with the longest name that the text starts with, or none without such a name. -/
def MostSpecific (name : α → List β) (table : List α) (text : List β) : Option α → Prop
  | none => ∀ a ∈ table, ¬name a <+: text
  | some a => a ∈ table ∧ name a <+: text ∧
      ∀ b ∈ table, name b <+: text → (name b).length ≤ (name a).length

/-- The text starts with the name of one entry at most. -/
def Unambiguous (name : α → List β) (table : List α) (text : List β) : Prop :=
  ∀ a ∈ table, ∀ b ∈ table, name a <+: text → name b <+: text → a = b

/-- Names that are different and no prefixes of each other leave no ambiguity. -/
theorem unambiguous_of_names (hnodup : (table.map name).Nodup)
    (h : ∀ x ∈ table.map name, ∀ y ∈ table.map name, x <+: y → y <+: text → x = y) :
    Unambiguous name table text := by
  intro a ha b hb hpa hpb
  have hna : name a ∈ table.map name := List.mem_map_of_mem ha
  have hnb : name b ∈ table.map name := List.mem_map_of_mem hb
  apply List.inj_on_of_nodup_map hnodup ha hb
  rcases Nat.le_total (name a).length (name b).length with hle | hle
  · exact h _ hna _ hnb (List.prefix_of_prefix_length_le hpa hpb hle) hpb
  · exact (h _ hnb _ hna (List.prefix_of_prefix_length_le hpb hpa hle) hpa).symm

variable [DecidableEq β]

/-- The first entry whose name the text starts with. -/
def firstMatch (name : α → List β) (table : List α) (text : List β) : Option α :=
  table.find? fun a => name a <+: text

theorem firstMatch_eq_none_iff :
    firstMatch name table text = none ↔ ∀ a ∈ table, ¬name a <+: text := by
  simp [firstMatch]

theorem mem_of_firstMatch {a : α} (h : firstMatch name table text = some a) :
    a ∈ table ∧ name a <+: text :=
  ⟨List.mem_of_find?_eq_some h, by simpa using List.find?_some h⟩

theorem firstMatch_cons_of_prefix {a : α} (h : name a <+: text) (table : List α) :
    firstMatch name (a :: table) text = some a := List.find?_cons_of_pos (by simpa using h)

theorem firstMatch_cons_of_not {a : α} (h : ¬name a <+: text) (table : List α) :
    firstMatch name (a :: table) text = firstMatch name table text :=
  List.find?_cons_of_neg (by simpa using h)

theorem mostSpecific_firstMatch (h : Unambiguous name table text) :
    MostSpecific name table text (firstMatch name table text) := by
  cases hfind : firstMatch name table text with
  | none => exact firstMatch_eq_none_iff.mp hfind
  | some a =>
    obtain ⟨ha, hp⟩ := mem_of_firstMatch hfind
    refine ⟨ha, hp, fun b hb hpb => ?_⟩
    rw [h b hb a ha hpb hp]

theorem firstMatch_perm (h : Unambiguous name table text) {table' : List α}
    (hperm : table'.Perm table) : firstMatch name table' text = firstMatch name table text := by
  cases hfind : firstMatch name table text with
  | none =>
    rw [firstMatch_eq_none_iff] at hfind ⊢
    exact fun a ha => hfind a (hperm.mem_iff.mp ha)
  | some a =>
    obtain ⟨ha, hp⟩ := mem_of_firstMatch hfind
    cases hfind' : firstMatch name table' text with
    | none => exact absurd hp (firstMatch_eq_none_iff.mp hfind' a (hperm.mem_iff.mpr ha))
    | some b =>
      obtain ⟨hb, hpb⟩ := mem_of_firstMatch hfind'
      rw [h b (hperm.mem_iff.mp hb) a ha hpb hp]

end PrefixTable
end NetBmp
