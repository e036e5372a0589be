import Mathlib.Data.List.Sort
import Mathlib.Data.List.TakeWhile
import Mathlib.Order.Basic

/-!
# Ordered sets

A set as the ascending list of its elements: what iterating over it gives. Only what
a queue of deadlines needs: insertion, and the split at a lower bound.
-/

structure OrderedSet (α : Type*) [LinearOrder α] where
  toList : List α
  sorted : toList.Pairwise (· < ·)

namespace OrderedSet

variable {α : Type*} [LinearOrder α]

def empty : OrderedSet α := ⟨[], List.Pairwise.nil⟩

theorem sorted_orderedInsert {a : α} {l : List α} (sorted : l.Pairwise (· < ·))
    (new : a ∉ l) : (l.orderedInsert (· ≤ ·) a).Pairwise (· < ·) := by
  have weak : (l.orderedInsert (· ≤ ·) a).Pairwise (· ≤ ·) :=
    List.Pairwise.orderedInsert a l (sorted.imp (fun less => le_of_lt less))
  have apart : (l.orderedInsert (· ≤ ·) a).Nodup := by
    rw [(List.perm_orderedInsert (· ≤ ·) a l).nodup_iff, List.nodup_cons]
    exact ⟨new, sorted.imp (fun less => ne_of_lt less)⟩
  exact (weak.and apart).imp (fun both => lt_of_le_of_ne both.1 both.2)

/-- Insertion leaves a set alone that has the element already. -/
def insert (s : OrderedSet α) (a : α) : OrderedSet α :=
  if h : a ∈ s.toList then s
  else ⟨s.toList.orderedInsert (· ≤ ·) a, sorted_orderedInsert s.sorted h⟩

theorem insert_perm {s : OrderedSet α} {a : α} (new : a ∉ s.toList) :
    (s.insert a).toList.Perm (a :: s.toList) := by
  rw [insert, dif_neg new]
  exact List.perm_orderedInsert (· ≤ ·) a s.toList

theorem mem_insert {s : OrderedSet α} {a x : α} :
    x ∈ (s.insert a).toList ↔ x = a ∨ x ∈ s.toList := by
  by_cases known : a ∈ s.toList
  · rw [insert, dif_pos known]
    exact ⟨Or.inr, fun h => h.elim (fun same => same ▸ known) id⟩
  · rw [(insert_perm known).mem_iff, List.mem_cons]

theorem exists_of_nodup {l : List α} (apart : l.Nodup) : ∃ s : OrderedSet α, s.toList.Perm l := by
  induction l with
  | nil => exact ⟨empty, .refl _⟩
  | cons a rest ih =>
    obtain ⟨new, apart⟩ := List.nodup_cons.mp apart
    obtain ⟨s, same⟩ := ih apart
    refine ⟨s.insert a, (insert_perm ?_).trans (same.cons a)⟩
    rw [same.mem_iff]
    exact new

/-- The elements before the lower bound of `k`. -/
def below (s : OrderedSet α) (k : α) : List α := s.toList.takeWhile (· < k)

/-- The set without them. -/
def eraseBelow (s : OrderedSet α) (k : α) : OrderedSet α :=
  ⟨s.toList.dropWhile (· < k), s.sorted.sublist (List.dropWhile_sublist _)⟩

theorem below_append_eraseBelow (s : OrderedSet α) (k : α) :
    s.below k ++ (s.eraseBelow k).toList = s.toList := List.takeWhile_append_dropWhile

theorem lt_of_mem_below {s : OrderedSet α} {k a : α} (h : a ∈ s.below k) : a < k := by
  simpa using List.mem_takeWhile_imp h

theorem le_of_mem_dropWhile {l : List α} (sorted : l.Pairwise (· < ·)) {k a : α}
    (h : a ∈ l.dropWhile (· < k)) : k ≤ a := by
  induction l with
  | nil => cases h
  | cons x rest ih =>
    rw [List.pairwise_cons] at sorted
    by_cases first : x < k
    · rw [List.dropWhile_cons_of_pos (by simpa using first)] at h
      exact ih sorted.2 h
    · rw [List.dropWhile_cons_of_neg (by simpa using first)] at h
      rcases List.mem_cons.mp h with rfl | later
      · exact not_lt.mp first
      · exact le_trans (not_lt.mp first) (le_of_lt (sorted.1 a later))

theorem le_of_mem_eraseBelow {s : OrderedSet α} {k a : α}
    (h : a ∈ (s.eraseBelow k).toList) : k ≤ a := le_of_mem_dropWhile s.sorted h

theorem below_eq_filter (s : OrderedSet α) (k : α) :
    s.below k = s.toList.filter (· < k) := by
  conv_rhs => rw [← s.below_append_eraseBelow k, List.filter_append]
  have all : (s.below k).filter (· < k) = s.below k :=
    List.filter_eq_self.mpr (fun a h => by simpa using lt_of_mem_below h)
  have none : (s.eraseBelow k).toList.filter (· < k) = [] :=
    List.filter_eq_nil_iff.mpr (fun a h => by simpa using le_of_mem_eraseBelow h)
  rw [all, none, List.append_nil]

end OrderedSet
