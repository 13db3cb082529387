import Mathlib.Algebra.BigOperators.Group.List.Basic
import Mathlib.Data.List.Nodup
import Mathlib.Data.List.SplitBy
import Mathlib.Order.Defs.PartialOrder

/-!
# SqlalchemyCollectd.Lib.GroupBy

**Grouping a list by consecutive equal keys.** `groupby key l` cuts `l` wherever
the key changes, which is what a streaming group-by does: it never looks back, so
a key that returns later opens a second group. On a list that is *sorted by the
key* this cannot happen, and the cut is the partition of `l` into its key classes
(`groupby_eq_map_filter`): one group for each key that occurs, and in it every
element with that key, in order.

Everything follows from one unfolding, `groupby_cons`: in a sorted list the first
group is the whole class of the head, and the rest is the grouping of what is
left.
-/

universe u v

namespace List

variable {α : Type u} {β : Type v} [DecidableEq β]

/-- Cut a list at every change of `key`. -/
def groupby (key : α → β) (l : List α) : List (List α) :=
  l.splitBy fun a b => decide (key a = key b)

/-- The keys of the groups, in order. -/
def classes (key : α → β) (l : List α) : List β :=
  (l.groupby key).filterMap fun g => g.head?.map key

@[simp] theorem groupby_nil (key : α → β) : [].groupby key = [] := rfl

@[simp] theorem classes_nil (key : α → β) : [].classes key = [] := rfl

/-- Of blocks laid end to end, each is what its label selects. -/
theorem filter_flatMap_of_nodup {ι γ : Type v} [DecidableEq γ] {label : α → γ} {name : ι → γ}
    (hname : Function.Injective name) {f : ι → List α} :
    ∀ {l : List ι}, l.Nodup → (∀ c ∈ l, ∀ a ∈ f c, label a = name c) → ∀ c ∈ l,
      (l.flatMap f).filter (fun a => label a = name c) = f c := by
  intro l
  induction l with
  | nil => intro _ _ c hc; cases hc
  | cons d l ih =>
      intro hnodup hlabel c hc
      obtain ⟨hd, hnodup⟩ := nodup_cons.mp hnodup
      have hself : ∀ c' ∈ d :: l, (f c').filter (fun a => label a = name c') = f c' :=
        fun c' hc' => filter_eq_self.mpr fun a ha => by simpa using hlabel c' hc' a ha
      have hother : ∀ c' ∈ d :: l, c' ≠ c → (f c').filter (fun a => label a = name c) = [] := by
        intro c' hc' hne
        rw [filter_eq_nil_iff]
        intro a ha
        rw [hlabel c' hc' a ha]
        simpa using fun h => hne (hname h)
      rw [flatMap_cons, filter_append]
      by_cases hdc : d = c
      · subst hdc
        have hrest : (l.flatMap f).filter (fun a => label a = name d) = [] := by
          rw [filter_flatMap, flatMap_eq_nil_iff]
          exact fun c' hc' => hother c' (mem_cons_of_mem d hc') fun h => hd (h ▸ hc')
        rw [hself d mem_cons_self, hrest, append_nil]
      · rw [hother d mem_cons_self hdc, nil_append]
        exact ih hnodup (fun c' hc' => hlabel c' (mem_cons_of_mem d hc')) c
          ((mem_cons.mp hc).resolve_left (Ne.symm hdc))

/-- A total is the sum over the parts, for any list of keys in which every element has
its key once. -/
theorem sum_map_sum_filter {M : Type v} [AddCommMonoid M] {key : α → β} (weight : α → M)
    {keys : List β} (hnodup : keys.Nodup) {l : List α} (hcover : ∀ a ∈ l, key a ∈ keys) :
    (keys.map fun c => ((l.filter fun a => key a = c).map weight).sum).sum =
      (l.map weight).sum := by
  induction l with
  | nil => simp
  | cons a l ih =>
      have hcons : (fun c => (((a :: l).filter fun a => key a = c).map weight).sum) = fun c =>
          (if c = key a then weight a else 0) + ((l.filter fun a => key a = c).map weight).sum := by
        funext c
        by_cases hc : key a = c
        · rw [filter_cons_of_pos (by simpa using hc), map_cons, sum_cons, if_pos hc.symm]
        · rw [filter_cons_of_neg (by simpa using hc), if_neg (Ne.symm hc), zero_add]
      have honce : (keys.map fun c => if c = key a then weight a else 0).sum = weight a := by
        rw [sum_map_eq_nsmul_single (key a) _ fun c hc _ => if_neg hc, if_pos rfl,
          count_eq_one_of_mem hnodup (hcover a mem_cons_self), one_nsmul]
      rw [hcons, sum_map_add, honce, ih fun b hb => hcover b (mem_cons_of_mem a hb), map_cons,
        sum_cons]

variable [PartialOrder β] {key : α → β}

/-- In a key-sorted list the elements of the smallest class come first. -/
theorem eq_filter_append_filter {c : β} :
    ∀ {l : List α}, l.Pairwise (fun a b => key a ≤ key b) → (∀ a ∈ l, c ≤ key a) →
      l = l.filter (fun a => key a = c) ++ l.filter (fun a => key a ≠ c) := by
  intro l
  induction l with
  | nil => intro _ _; rfl
  | cons a l ih =>
      intro hsorted hmin
      rw [pairwise_cons] at hsorted
      by_cases ha : key a = c
      · rw [filter_cons_of_pos (by simpa using ha), filter_cons_of_neg (by simpa using ha),
          cons_append]
        exact congrArg (a :: ·) (ih hsorted.2 fun b hb => hmin b (mem_cons_of_mem a hb))
      · -- from here on every key is above `c`, so nothing more belongs to the class
        have hlt : c < key a := lt_of_le_of_ne (hmin a mem_cons_self) (Ne.symm ha)
        have hnone : ∀ b ∈ a :: l, key b ≠ c := by
          intro b hb hbc
          rcases mem_cons.mp hb with rfl | hb
          · exact ha hbc
          · exact absurd (hbc ▸ hsorted.1 b hb) hlt.not_ge
        rw [filter_eq_nil_iff.mpr (by simpa using hnone), nil_append]
        exact (filter_eq_self.mpr (by simpa using hnone)).symm

/-- The first group of a key-sorted list is the class of its head. -/
theorem groupby_cons {a : α} {l : List α}
    (hsorted : (a :: l).Pairwise fun a b => key a ≤ key b) :
    (a :: l).groupby key =
      (a :: l).filter (fun b => key b = key a) ::
        (l.filter fun b => key b ≠ key a).groupby key := by
  have hmin : ∀ b ∈ a :: l, key a ≤ key b := by
    intro b hb
    rcases mem_cons.mp hb with rfl | hb
    · exact le_rfl
    · exact (pairwise_cons.mp hsorted).1 b hb
  have htail : (a :: l).filter (fun b => key b ≠ key a) = l.filter fun b => key b ≠ key a :=
    filter_cons_of_neg (by simp)
  have hhead : ((a :: l).filter fun b => key b = key a) ≠ [] :=
    ne_nil_of_mem (mem_filter.mpr ⟨mem_cons_self, by simp⟩)
  conv_lhs => rw [eq_filter_append_filter hsorted hmin]
  unfold groupby
  rw [splitBy_append, splitBy_of_isChain hhead, htail, singleton_append]
  · refine Pairwise.isChain (pairwise_of_forall_mem_list fun b hb c hc => ?_)
    simp only [mem_filter, decide_eq_true_eq] at hb hc ⊢
    exact hb.2.trans hc.2.symm
  · intro b hb c hc
    have hb := (mem_filter.mp (mem_of_getLast? hb)).2
    have hc := (mem_filter.mp (mem_of_mem_head? hc)).2
    simp only [decide_eq_true_eq] at hb hc
    simpa [hb] using Ne.symm hc

theorem classes_cons {a : α} {l : List α}
    (hsorted : (a :: l).Pairwise fun a b => key a ≤ key b) :
    (a :: l).classes key = key a :: (l.filter fun b => key b ≠ key a).classes key := by
  unfold classes
  rw [groupby_cons hsorted, filter_cons_of_pos (by simp), filterMap_cons]
  rfl

/-- Induction along the groups of a key-sorted list. -/
theorem sorted_groups_induction
    {motive : (l : List α) → l.Pairwise (fun a b => key a ≤ key b) → Prop}
    (hnil : motive [] Pairwise.nil)
    (hcons : ∀ a l (hsorted : (a :: l).Pairwise fun a b => key a ≤ key b),
      motive (l.filter fun b => key b ≠ key a) ((pairwise_cons.mp hsorted).2.filter _) →
        motive (a :: l) hsorted) :
    ∀ (l : List α) (hsorted : l.Pairwise fun a b => key a ≤ key b), motive l hsorted := by
  intro l
  induction hn : l.length using Nat.strong_induction_on generalizing l with
  | _ n ih =>
      intro hsorted
      cases l with
      | nil => exact hnil
      | cons a l =>
          refine hcons a l hsorted (ih _ ?_ _ rfl _)
          rw [← hn, length_cons]
          exact Nat.lt_succ_of_le (length_filter_le _ l)

theorem mem_classes {c : β} {l : List α} (hsorted : l.Pairwise fun a b => key a ≤ key b) :
    c ∈ l.classes key ↔ ∃ a ∈ l, key a = c := by
  induction l, hsorted using sorted_groups_induction with
  | hnil => simp
  | hcons a l hsorted ih =>
      rw [classes_cons hsorted, mem_cons, ih]
      constructor
      · rintro (rfl | ⟨b, hb, hbc⟩)
        · exact ⟨a, mem_cons_self, rfl⟩
        · exact ⟨b, mem_cons_of_mem a (mem_filter.mp hb).1, hbc⟩
      · rintro ⟨b, hb, rfl⟩
        by_cases hba : key b = key a
        · exact Or.inl hba
        · rcases mem_cons.mp hb with rfl | hb
          · exact absurd rfl hba
          · exact Or.inr ⟨b, mem_filter.mpr ⟨hb, by simpa using hba⟩, rfl⟩

/-- The groups of a key-sorted list come in the order of their keys. -/
theorem classes_strict {l : List α} (hsorted : l.Pairwise fun a b => key a ≤ key b) :
    (l.classes key).Pairwise (· < ·) := by
  induction l, hsorted using sorted_groups_induction with
  | hnil => exact Pairwise.nil
  | hcons a l hsorted ih =>
      rw [classes_cons hsorted, pairwise_cons]
      refine ⟨fun c hc => ?_, ih⟩
      obtain ⟨b, hb, rfl⟩ := (mem_classes ((pairwise_cons.mp hsorted).2.filter _)).mp hc
      obtain ⟨hmem, hne⟩ := mem_filter.mp hb
      exact lt_of_le_of_ne ((pairwise_cons.mp hsorted).1 b hmem)
        (Ne.symm (by simpa using hne))

theorem classes_nodup {l : List α} (hsorted : l.Pairwise fun a b => key a ≤ key b) :
    (l.classes key).Nodup :=
  (classes_strict hsorted).imp ne_of_lt

/-- **Grouping a key-sorted list partitions it.** There is one group for each key
that occurs, and it holds every element with that key in the order of the list. -/
theorem groupby_eq_map_filter {l : List α}
    (hsorted : l.Pairwise fun a b => key a ≤ key b) :
    l.groupby key = (l.classes key).map fun c => l.filter fun a => key a = c := by
  induction l, hsorted using sorted_groups_induction with
  | hnil => rfl
  | hcons a l hsorted ih =>
      rw [groupby_cons hsorted, classes_cons hsorted, map_cons, ih]
      congr 1
      refine map_congr_left fun c hc => ?_
      obtain ⟨b, hb, rfl⟩ := (mem_classes ((pairwise_cons.mp hsorted).2.filter _)).mp hc
      have hne : key b ≠ key a := by simpa using (mem_filter.mp hb).2
      rw [filter_cons_of_neg (by simpa using Ne.symm hne), filter_filter]
      refine filter_congr fun x _ => ?_
      by_cases hx : key x = key b
      · simp [hx, hne]
      · simp [hx]

end List
