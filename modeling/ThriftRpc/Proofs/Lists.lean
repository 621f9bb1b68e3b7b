import Mathlib.Data.List.Nodup
import Mathlib.Data.List.Perm.Basic

/-!
# Lists

Lists related element by element, and where a property of initial segments breaks.
-/

namespace ThriftRpc

variable {α β γ : Type} {R : α → β → Prop} {as : List α} {bs : List β}

theorem exists_of_mem_right {b : β} (h : List.Forall₂ R as bs) (hb : b ∈ bs) :
    ∃ a ∈ as, R a b := by
  induction h with
  | nil => cases hb
  | cons hab _ ih =>
    rcases List.mem_cons.mp hb with rfl | hb
    · exact ⟨_, List.mem_cons_self, hab⟩
    · obtain ⟨a, ha, hr⟩ := ih hb
      exact ⟨a, List.mem_cons_of_mem _ ha, hr⟩

theorem exists_forall₂ (h : ∀ a ∈ as, ∃ b, R a b) : ∃ bs, List.Forall₂ R as bs := by
  induction as with
  | nil => exact ⟨[], .nil⟩
  | cons a as ih =>
    rw [List.forall_mem_cons] at h
    obtain ⟨b, hb⟩ := h.1
    obtain ⟨bs, hbs⟩ := ih h.2
    exact ⟨b :: bs, .cons hb hbs⟩

theorem forall₂_trans {S : β → γ → Prop} {T : α → γ → Prop} {cs : List γ}
    (hrst : ∀ a b c, R a b → S b c → T a c) (h : List.Forall₂ R as bs)
    (hs : List.Forall₂ S bs cs) : List.Forall₂ T as cs := by
  induction h generalizing cs with
  | nil => cases hs; exact .nil
  | cons hab _ ih =>
    cases hs with
    | cons hbc hs => exact .cons (hrst _ _ _ hab hbc) (ih hs)

theorem map_eq_map_of_forall₂ {f : α → γ} {g : β → γ} (hfg : ∀ a b, R a b → f a = g b)
    (h : List.Forall₂ R as bs) : as.map f = bs.map g := by
  induction h with
  | nil => rfl
  | cons hab _ ih => rw [List.map_cons, List.map_cons, hfg _ _ hab, ih]

theorem eq_of_forall₂ {S : α → β → Prop} {bs' : List β}
    (hrs : ∀ a b b', R a b → S a b' → b = b') (h : List.Forall₂ R as bs)
    (hs : List.Forall₂ S as bs') : bs = bs' := by
  induction h generalizing bs' with
  | nil => cases hs; rfl
  | cons hab _ ih =>
    cases hs with
    | cons hab' hs => rw [hrs _ _ _ hab hab', ih hs]

/-- Lists that are determined by two orders of one list are two orders of one list. -/
theorem perm_of_forall₂ {S : α → β → Prop} {as' : List α} {bs' : List β}
    (hrs : ∀ a b b', R a b → S a b' → b = b') (h : List.Forall₂ R as bs) (hperm : as.Perm as')
    (hs : List.Forall₂ S as' bs') : bs.Perm bs' := by
  obtain ⟨cs, hcs, hperm'⟩ := List.perm_comp_forall₂ hperm hs
  exact eq_of_forall₂ hrs h hcs ▸ hperm'

/-- Elements of a list that give the same are the same, if none of what they give is repeated. -/
theorem eq_of_nodup_filterMap {f : α → Option β} {a b : α} {c : β} (hd : (as.filterMap f).Nodup)
    (ha : a ∈ as) (hb : b ∈ as) (hfa : f a = some c) (hfb : f b = some c) : a = b := by
  induction as with
  | nil => cases ha
  | cons d as ih =>
    have hlater {e : α} (he : e ∈ as) (hfe : f e = some c) (hfd : f d = some c) : False := by
      rw [List.filterMap_cons_some hfd, List.nodup_cons] at hd
      exact hd.1 (List.mem_filterMap.mpr ⟨e, he, hfe⟩)
    have htail : (as.filterMap f).Nodup :=
      hd.sublist ((List.sublist_cons_self d as).filterMap f)
    rcases List.mem_cons.mp ha with rfl | ha
    · rcases List.mem_cons.mp hb with rfl | hb
      · rfl
      · exact (hlater hb hfb hfa).elim
    · rcases List.mem_cons.mp hb with heq | hb
      · exact (hlater ha hfa (heq ▸ hfb)).elim
      · exact ih htail ha hb

theorem eq_of_perm_of_length_le_one {as' : List α} (h : as.Perm as') (hlength : as.length ≤ 1) :
    as = as' := by
  match as, hlength with
  | [], _ => exact (List.nil_perm.mp h).symm
  | [a], _ => exact (List.perm_singleton.mp h.symm).symm

theorem map_fst_zip_sublist (as : List α) (bs : List β) :
    ((as.zip bs).map Prod.fst).Sublist as := by
  induction as generalizing bs with
  | nil => exact List.Sublist.slnil
  | cons a as ih =>
    cases bs with
    | nil => exact List.nil_sublist _
    | cons b bs => exact (ih bs).cons_cons a

/-- What a list gives in order, if it gives something exactly where the other one goes on. -/
theorem forall₂_zip_filterMap {f : α → Option γ} {R : α × β → γ → Prop}
    (h : ∀ (i : Nat) (a : α), as[i]? = some a → (bs[i]? = none ∧ f a = none) ∨
      ∃ b c, bs[i]? = some b ∧ f a = some c ∧ R (a, b) c) :
    List.Forall₂ R (as.zip bs) (as.filterMap f) := by
  induction as generalizing bs with
  | nil => exact .nil
  | cons a as ih =>
    cases bs with
    | nil =>
      have hnone : f a = none := by
        rcases h 0 a rfl with ⟨-, hnone⟩ | ⟨b, c, hb, -⟩
        · exact hnone
        · cases hb
      rw [List.filterMap_cons_none hnone, List.zip_nil_right, ← List.zip_nil_right (l := as)]
      exact ih fun i a' ha' => (h (i + 1) a' ha').imp_left fun h => ⟨rfl, h.2⟩
    | cons b bs =>
      obtain ⟨c, hc, hr⟩ : ∃ c, f a = some c ∧ R (a, b) c := by
        rcases h 0 a rfl with ⟨hb, -⟩ | ⟨b', c, hb, hc, hr⟩
        · cases hb
        · cases hb
          exact ⟨c, hc, hr⟩
      rw [List.filterMap_cons_some hc, List.zip_cons_cons]
      exact .cons hr (ih fun i a' ha' => h (i + 1) a' ha')

/-! ## Where a property breaks -/

section Break

variable {P : List α → Prop} {before before' after after' : List α} {a a' : α}

theorem exists_break (hnil : P []) (h : ¬ P as) :
    ∃ before a after, as = before ++ a :: after ∧ P before ∧ ¬ P (before ++ [a]) := by
  suffices hrun : ∀ after before : List α, as = before ++ after → P before →
      ∃ before a after, as = before ++ a :: after ∧ P before ∧ ¬ P (before ++ [a]) from
    hrun as [] rfl hnil
  intro after
  induction after with
  | nil =>
    intro before has hbefore
    rw [List.append_nil] at has
    exact absurd (has ▸ hbefore) h
  | cons a after ih =>
    intro before has hbefore
    by_cases ha : P (before ++ [a])
    · exact ih (before ++ [a]) (by simp [has]) ha
    · exact ⟨before, a, after, has, hbefore, ha⟩

/-- A property that the initial segments of a list inherit breaks at one place. -/
theorem break_unique (hinherit : ∀ as bs, P (as ++ bs) → P as)
    (h : before ++ a :: after = before' ++ a' :: after') (hbefore : P before) (hbefore' : P before')
    (ha : ¬ P (before ++ [a])) (ha' : ¬ P (before' ++ [a'])) : a = a' := by
  rcases List.append_eq_append_iff.mp h with ⟨c, hc, hrest⟩ | ⟨c, hc, hrest⟩
  · cases c with
    | nil => exact (List.cons.inj hrest).1
    | cons b c =>
      obtain ⟨rfl, -⟩ := List.cons.inj hrest
      exact absurd (hinherit (before ++ [a]) c (by simpa [hc] using hbefore')) ha
  · cases c with
    | nil => exact (List.cons.inj hrest).1.symm
    | cons b c =>
      obtain ⟨rfl, -⟩ := List.cons.inj hrest
      exact absurd (hinherit (before' ++ [a']) c (by simpa [hc] using hbefore)) ha'

end Break

end ThriftRpc
