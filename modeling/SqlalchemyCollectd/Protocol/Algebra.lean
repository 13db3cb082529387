import Mathlib.Algebra.BigOperators.Group.List.Basic
import SqlalchemyCollectd.Lib.Agreement
import SqlalchemyCollectd.Protocol.Sum

/-!
# SqlalchemyCollectd.Protocol.Algebra

The algebra of `Values` objects over exact numbers.

Every slot of a sum is a merge by agreement: the default is `None`, and for the
interval it is `DEFAULT_INTERVAL`, which the constructor puts in the place of a
`None`. The values are added position by position. So addition is commutative and
associative, and a sum is described by its summands as a whole (`IsSum`), whatever
their order (`sum_laws`).
-/

namespace SqlalchemyCollectd

open Agreement

/-- The elements at one position of every list, if it is within all of them. -/
theorem mapM_getElem? {β γ : Type} (f : β → List γ) (xs : List β) (i : ℕ) (default : γ) :
    (xs.mapM fun x => (f x)[i]?) =
      if ∀ x ∈ xs, i < (f x).length then some (xs.map fun x => (f x).getD i default) else none := by
  induction xs with
  | nil => rfl
  | cons x xs ih =>
      simp only [List.mapM_cons, ih, List.forall_mem_cons]
      by_cases hx : i < (f x).length
      · by_cases hxs : ∀ y ∈ xs, i < (f y).length
        · rw [if_pos hxs, if_pos ⟨hx, hxs⟩]
          simp [hx]
        · have hnot : ¬(i < (f x).length ∧ ∀ y ∈ xs, i < (f y).length) := fun h => hxs h.2
          rw [if_neg hxs, if_neg hnot]
          simp
      · have hnot : ¬(i < (f x).length ∧ ∀ y ∈ xs, i < (f y).length) := fun h => hx h.1
        rw [if_neg hnot]
        simp [hx]

namespace Values

variable {α : Type}

section Laws

variable [AddCommMonoid α]

theorem zipWith_add_assoc (xs ys zs : List α) :
    List.zipWith (· + ·) (List.zipWith (· + ·) xs ys) zs =
      List.zipWith (· + ·) xs (List.zipWith (· + ·) ys zs) := by
  induction xs generalizing ys zs with
  | nil => rfl
  | cons x xs ih =>
      cases ys with
      | nil => rfl
      | cons y ys =>
          cases zs with
          | nil => rfl
          | cons z zs => simp [ih, add_assoc]

theorem zipWith_add_comm (xs ys : List α) :
    List.zipWith (· + ·) xs ys = List.zipWith (· + ·) ys xs :=
  List.zipWith_comm_of_comm add_comm

/-- Addition merges every slot by agreement, each with the default of the constructor. -/
theorem add_eq (v w : Values α) :
    v.add w =
      { type := meet none v.type w.type
        typeInstance := meet none v.typeInstance w.typeInstance
        plugin := meet none v.plugin w.plugin
        pluginInstance := meet none v.pluginInstance w.pluginInstance
        host := meet none v.host w.host
        time := meet none v.time w.time
        interval := meet defaultInterval v.interval w.interval
        values := List.zipWith (· + ·) v.values w.values } := rfl

/-- `v + w` is `w + v`. -/
theorem add_commutes (v w : Values α) : v.add w = w.add v := by
  rw [add_eq, add_eq, Values.mk.injEq]
  exact ⟨meet_comm .., meet_comm .., meet_comm .., meet_comm .., meet_comm .., meet_comm ..,
    meet_comm .., zipWith_add_comm ..⟩

/-- `u + v + w` is `u + (v + w)`. -/
theorem add_associates (u v w : Values α) : (u.add v).add w = u.add (v.add w) := by
  simp only [add_eq, meet_assoc, zipWith_add_assoc]

/-- `0 + v` is `v`. -/
theorem zero_add_eq (v : Values α) : v.addNumber 0 = v := by
  simp [addNumber]

/-- A slot of a sum is merged over all summands. -/
theorem agreed_sum {β : Type} [DecidableEq β] {bot : β} (slot : Values α → β)
    (hadd : ∀ v w : Values α, slot (v.add w) = meet bot (slot v) (slot w)) (first : Values α)
    (rest : List (Values α)) :
    Agreed bot ((first :: rest).map slot) (slot (sum first rest)) := by
  have hfold : slot (sum first rest) = (rest.map slot).foldl (meet bot) (slot first) := by
    rw [sum, zero_add_eq, List.foldl_map]
    exact (List.foldl_hom slot fun v w => (hadd v w).symm).symm
  rw [hfold, List.map_cons]
  exact agreed_foldl bot (slot first) (rest.map slot)

/-- What `sum()` of a list is: each slot is the one that all agree on, or the default,
and the values are summed at the positions within the shortest. -/
structure IsSum (vs : List (Values α)) (s : Values α) : Prop where
  type : Agreed none (vs.map Values.type) s.type
  typeInstance : Agreed none (vs.map Values.typeInstance) s.typeInstance
  plugin : Agreed none (vs.map Values.plugin) s.plugin
  pluginInstance : Agreed none (vs.map Values.pluginInstance) s.pluginInstance
  host : Agreed none (vs.map Values.host) s.host
  time : Agreed none (vs.map Values.time) s.time
  interval : Agreed defaultInterval (vs.map Values.interval) s.interval
  values : ∀ i, s.values[i]? =
    if ∀ v ∈ vs, i < v.values.length then some (vs.map fun v => v.values.getD i 0).sum else none

theorem isSum_sum (first : Values α) (rest : List (Values α)) :
    IsSum (first :: rest) (sum first rest) where
  type := agreed_sum _ (fun _ _ => rfl) first rest
  typeInstance := agreed_sum _ (fun _ _ => rfl) first rest
  plugin := agreed_sum _ (fun _ _ => rfl) first rest
  pluginInstance := agreed_sum _ (fun _ _ => rfl) first rest
  host := agreed_sum _ (fun _ _ => rfl) first rest
  time := agreed_sum _ (fun _ _ => rfl) first rest
  interval := agreed_sum _ (fun _ _ => rfl) first rest
  values i := by
    rw [sum_values_getElem?, mapM_getElem? Values.values _ i 0]
    split
    · rw [Option.map_some, pySum_eq_sum]
    · rfl

/-- The description does not depend on the order of the summands. -/
theorem IsSum.perm {vs ws : List (Values α)} {s t : Values α} (hs : IsSum vs s) (ht : IsSum ws t)
    (hne : vs ≠ []) (h : vs.Perm ws) : s = t := by
  have hslot : ∀ {β : Type} {bot : β} (slot : Values α → β),
      Agreed bot (vs.map slot) (slot s) → Agreed bot (ws.map slot) (slot t) → slot s = slot t :=
    fun slot hvs hws => hvs.unique hws (by simpa using hne) fun z => (h.map slot).mem_iff
  have hvalues : s.values = t.values := by
    refine List.ext_getElem? fun i => ?_
    have hsum := (h.map fun v : Values α => v.values.getD i 0).sum_eq
    rw [hs.values, ht.values, hsum]
    simp only [h.mem_iff]
  cases s
  cases t
  simp only [Values.mk.injEq]
  exact ⟨hslot Values.type hs.type ht.type, hslot Values.typeInstance hs.typeInstance ht.typeInstance,
    hslot Values.plugin hs.plugin ht.plugin,
    hslot Values.pluginInstance hs.pluginInstance ht.pluginInstance,
    hslot Values.host hs.host ht.host, hslot Values.time hs.time ht.time,
    hslot Values.interval hs.interval ht.interval, hvalues⟩

variable (α) in
/-- **The laws of `Values.__add__`.** It is commutative and associative, `0` is neutral,
and the sum of a list is what its elements, in any order, say it is. -/
theorem sum_laws :
    (∀ v w : Values α, v.add w = w.add v) ∧
      (∀ u v w : Values α, (u.add v).add w = u.add (v.add w)) ∧
      (∀ v : Values α, v.addNumber 0 = v) ∧
      ∀ (first : Values α) (rest : List (Values α)), IsSum (first :: rest) (sum first rest) ∧
        ∀ first' rest', (first' :: rest').Perm (first :: rest) →
          sum first' rest' = sum first rest := by
  refine ⟨add_commutes, add_associates, zero_add_eq, fun first rest => ⟨isSum_sum first rest, ?_⟩⟩
  intro first' rest' hperm
  exact (isSum_sum first' rest').perm (isSum_sum first rest) (List.cons_ne_nil _ _) hperm

end Laws

end Values

end SqlalchemyCollectd
