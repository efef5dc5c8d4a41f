import Mathlib.Data.List.Basic
import Mathlib.Tactic

/-!
# Runs of a system

A system takes steps that may be possible or not in a state, and that may go wrong:
a step without a result is an access outside of memory.  A run is a list of steps.
`Allowed cond` are the runs all of whose steps are possible and meet a condition on
the state before them; the rule `run_invariant` proves for these that nothing goes
wrong and that an invariant holds at the end.
-/

namespace Slience

structure System (σ α : Type*) where
  enabled : σ → α → Prop
  step : σ → α → Option σ

namespace System

variable {σ α : Type*} (S : System σ α)

def run : σ → List α → Option σ
  | s, [] => some s
  | s, a :: as => (S.step s a).bind fun s' ↦ run s' as

def Allowed (cond : σ → α → Prop) : σ → List α → Prop
  | _, [] => True
  | s, a :: as => S.enabled s a ∧ cond s a ∧ ∀ s', S.step s a = some s' → Allowed cond s' as

instance decidableAllowed {cond : σ → α → Prop} [∀ s a, Decidable (S.enabled s a)]
    [∀ s a, Decidable (cond s a)] (s : σ) (as : List α) : Decidable (S.Allowed cond s as) :=
  match as with
  | [] => isTrue trivial
  | a :: as =>
      letI : Decidable (∀ s', S.step s a = some s' → S.Allowed cond s' as) :=
        match h : S.step s a with
        | none => isTrue (by simp)
        | some s₁ => @decidable_of_iff _ (S.Allowed cond s₁ as) (by simp)
            (decidableAllowed s₁ as)
      inferInstanceAs (Decidable (_ ∧ _ ∧ _))

/-- No condition on the steps of a run. -/
def anyStep : σ → α → Prop := fun _ _ ↦ True

instance (s : σ) (a : α) : Decidable (anyStep s a) := isTrue trivial

variable {S}

@[simp] theorem run_nil (s : σ) : S.run s [] = some s := rfl

theorem run_cons (s : σ) (a : α) (as : List α) :
    S.run s (a :: as) = (S.step s a).bind fun s' ↦ S.run s' as := rfl

theorem run_append (s : σ) (as bs : List α) :
    S.run s (as ++ bs) = (S.run s as).bind fun s' ↦ S.run s' bs := by
  induction as generalizing s with
  | nil => rfl
  | cons a as ih =>
      rw [List.cons_append, run_cons, run_cons, Option.bind_assoc]
      congr 1
      funext s'
      exact ih s'

theorem Allowed.append {cond : σ → α → Prop} {s s' : σ} {as bs : List α}
    (h : S.Allowed cond s (as ++ bs)) (hrun : S.run s as = some s') :
    S.Allowed cond s as ∧ S.Allowed cond s' bs := by
  induction as generalizing s with
  | nil =>
      cases hrun
      exact ⟨trivial, h⟩
  | cons a as ih =>
      obtain ⟨henabled, hcond, hrest⟩ := h
      rw [run_cons] at hrun
      obtain ⟨s₁, hstep, hrun⟩ := Option.bind_eq_some_iff.mp hrun
      refine ⟨⟨henabled, hcond, ?_⟩, (ih (hrest s₁ hstep) hrun).2⟩
      intro s₂ hstep'
      rw [hstep] at hstep'
      cases hstep'
      exact (ih (hrest s₁ hstep) hrun).1

theorem Allowed.concat {cond : σ → α → Prop} {s : σ} {as bs : List α}
    (h : S.Allowed cond s as) (hbs : ∀ s', S.run s as = some s' → S.Allowed cond s' bs) :
    S.Allowed cond s (as ++ bs) := by
  induction as generalizing s with
  | nil => exact hbs s rfl
  | cons a as ih =>
      obtain ⟨henabled, hcond, hrest⟩ := h
      refine ⟨henabled, hcond, ?_⟩
      intro s₁ hstep
      refine ih (hrest s₁ hstep) ?_
      intro s' hrun
      refine hbs s' ?_
      rw [run_cons, hstep, Option.bind_some, hrun]

theorem Allowed.mono {cond cond' : σ → α → Prop} (hcond : ∀ s a, cond s a → cond' s a)
    {s : σ} {as : List α} (h : S.Allowed cond s as) : S.Allowed cond' s as := by
  induction as generalizing s with
  | nil => trivial
  | cons a as ih => exact ⟨h.1, hcond s a h.2.1, fun s' hstep ↦ ih (h.2.2 s' hstep)⟩

theorem run_invariant {cond : σ → α → Prop} {I : σ → Prop}
    (hstep : ∀ s a, I s → S.enabled s a → cond s a → ∃ s', S.step s a = some s' ∧ I s')
    {s : σ} (hs : I s) {as : List α} (h : S.Allowed cond s as) :
    ∃ s', S.run s as = some s' ∧ I s' := by
  induction as generalizing s with
  | nil => exact ⟨s, rfl, hs⟩
  | cons a as ih =>
      obtain ⟨henabled, hcond, hrest⟩ := h
      obtain ⟨s₁, hs₁, hinv⟩ := hstep s a hs henabled hcond
      obtain ⟨s₂, hs₂, hinv₂⟩ := ih hinv (hrest s₁ hs₁)
      refine ⟨s₂, ?_, hinv₂⟩
      rw [run_cons, hs₁, Option.bind_some, hs₂]

/-- What each step adds to a record, a run adds in the order of its steps. -/
theorem record_of_run {β : Type*} {record : σ → List β} {entry : α → Option β}
    (hstep : ∀ s a s', S.step s a = some s' → record s' = record s ++ (entry a).toList)
    {s s' : σ} {as : List α} (hrun : S.run s as = some s') :
    record s' = record s ++ as.filterMap entry := by
  induction as generalizing s with
  | nil =>
      cases hrun
      simp
  | cons a as ih =>
      rw [run_cons] at hrun
      obtain ⟨s₁, hs₁, hrun⟩ := Option.bind_eq_some_iff.mp hrun
      rw [ih hrun, hstep s a s₁ hs₁, List.append_assoc]
      cases hentry : entry a <;> simp [hentry]

/-- Where a step may also have no result: what the steps that have one preserve holds
at the end of a run that has one. -/
theorem invariant_of_run {cond : σ → α → Prop} {I : σ → Prop}
    (hstep : ∀ s a s', I s → S.enabled s a → cond s a → S.step s a = some s' → I s')
    {s s' : σ} (hs : I s) {as : List α} (h : S.Allowed cond s as)
    (hrun : S.run s as = some s') : I s' := by
  induction as generalizing s with
  | nil =>
      cases hrun
      exact hs
  | cons a as ih =>
      obtain ⟨henabled, hcond, hrest⟩ := h
      rw [run_cons] at hrun
      obtain ⟨s₁, hs₁, hrun⟩ := Option.bind_eq_some_iff.mp hrun
      exact ih (hstep s a s₁ hs henabled hcond hs₁) (hrest s₁ hs₁) hrun

/-- Two conditions allow the same runs when an invariant, which the steps that meet the first of
them keep, makes them equivalent. -/
theorem allowed_congr_of_cond {cond cond' : σ → α → Prop} {I : σ → Prop}
    (hstep : ∀ s a s', I s → S.enabled s a → cond s a → S.step s a = some s' → I s')
    (hcond : ∀ s a, I s → S.enabled s a → (cond s a ↔ cond' s a))
    {s : σ} (hs : I s) (as : List α) : S.Allowed cond s as ↔ S.Allowed cond' s as := by
  induction as generalizing s with
  | nil => exact Iff.rfl
  | cons a as ih =>
      constructor
      · rintro ⟨henabled, ha, hrest⟩
        refine ⟨henabled, (hcond s a hs henabled).mp ha, ?_⟩
        intro s' hs'
        exact (ih (hstep s a s' hs henabled ha hs')).mp (hrest s' hs')
      · rintro ⟨henabled, ha', hrest⟩
        have ha := (hcond s a hs henabled).mpr ha'
        refine ⟨henabled, ha, ?_⟩
        intro s' hs'
        exact (ih (hstep s a s' hs henabled ha hs')).mpr (hrest s' hs')

theorem allowed_congr {cond cond' : σ → α → Prop} {I : σ → Prop}
    (hstep : ∀ s a s', I s → S.enabled s a → S.step s a = some s' → I s')
    (hcond : ∀ s a, I s → S.enabled s a → (cond s a ↔ cond' s a))
    {s : σ} (hs : I s) (as : List α) : S.Allowed cond s as ↔ S.Allowed cond' s as :=
  allowed_congr_of_cond (fun s a s' hI henabled _ hs' ↦ hstep s a s' hI henabled hs') hcond hs as

/-- A property is kept through a run exactly where each of its steps meets the condition that the
step keeps it. -/
theorem reached_iff_allowed {cond : σ → α → Prop} {I P : σ → Prop}
    (hstep : ∀ s a s', I s → P s → S.enabled s a → S.step s a = some s' → P s' → I s')
    (hcond : ∀ s a, I s → P s → S.enabled s a →
      ((∀ s', S.step s a = some s' → P s') ↔ cond s a))
    {s : σ} (hs : I s) (hP : P s) {as : List α} (h : S.Allowed anyStep s as) :
    (∀ bs, bs <+: as → ∀ s', S.run s bs = some s' → P s') ↔ S.Allowed cond s as := by
  induction as generalizing s with
  | nil =>
      refine iff_of_true ?_ trivial
      intro bs hbs s' hrun
      cases List.prefix_nil.mp hbs
      cases hrun
      exact hP
  | cons a as ih =>
      obtain ⟨henabled, -, hrest⟩ := h
      constructor
      · intro hkept
        have hkept' : ∀ s', S.step s a = some s' → P s' := by
          intro s' hs'
          refine hkept [a] ⟨as, rfl⟩ s' ?_
          rw [run_cons, hs']
          rfl
        refine ⟨henabled, (hcond s a hs hP henabled).mp hkept', ?_⟩
        intro s' hs'
        have hinv := hstep s a s' hs hP henabled hs' (hkept' s' hs')
        apply (ih hinv (hkept' s' hs') (hrest s' hs')).mp
        intro bs hbs s'' hrun
        refine hkept (a :: bs) ((List.prefix_cons_inj a).mpr hbs) s'' ?_
        rw [run_cons, hs', Option.bind_some, hrun]
      · rintro ⟨-, ha, hallowed⟩ bs hbs s'' hrun
        cases bs with
        | nil =>
            cases hrun
            exact hP
        | cons b bs =>
            obtain ⟨rfl, hbs'⟩ := List.cons_prefix_cons.mp hbs
            rw [run_cons] at hrun
            obtain ⟨s', hs', hrun⟩ := Option.bind_eq_some_iff.mp hrun
            have hP' := (hcond s b hs hP henabled).mpr ha s' hs'
            exact (ih (hstep s b s' hs hP henabled hs' hP') hP' (hrest s' hs')).mpr
              (hallowed s' hs') bs hbs' s'' hrun

theorem allowed_anyStep (henabled : ∀ s a, S.enabled s a) (s : σ) (as : List α) :
    S.Allowed anyStep s as := by
  induction as generalizing s with
  | nil => trivial
  | cons a as ih => exact ⟨henabled s a, trivial, fun s' _ ↦ ih s'⟩

/-- A run stays with a model, whose steps always have a result, exactly where each of its steps
meets the condition under which one step does. -/
theorem simulates_iff {τ : Type*} {cond : σ → α → Prop} {I : σ → Prop} {R : σ → τ → Prop}
    {f : τ → α → τ}
    (hinv : ∀ s t a s', I s → R s t → S.enabled s a → S.step s a = some s' → R s' (f t a) → I s')
    (hstep : ∀ s t a, I s → R s t → S.enabled s a →
      ((∃ s', S.step s a = some s' ∧ R s' (f t a)) ↔ cond s a))
    {s : σ} {t : τ} (hs : I s) (hR : R s t) {as : List α} (h : S.Allowed anyStep s as) :
    (∀ bs, bs <+: as → ∃ s', S.run s bs = some s' ∧ R s' (bs.foldl f t)) ↔
      S.Allowed cond s as := by
  induction as generalizing s t with
  | nil =>
      refine iff_of_true ?_ trivial
      intro bs hbs
      cases List.prefix_nil.mp hbs
      exact ⟨s, rfl, hR⟩
  | cons a as ih =>
      obtain ⟨henabled, -, hrest⟩ := h
      constructor
      · intro hall
        obtain ⟨s', hs', hR'⟩ := hall [a] ⟨as, rfl⟩
        rw [run_cons] at hs'
        obtain ⟨s₁, hs₁, hs'⟩ := Option.bind_eq_some_iff.mp hs'
        obtain rfl : s' = s₁ := (Option.some.inj hs').symm
        refine ⟨henabled, (hstep s t a hs hR henabled).mp ⟨s', hs₁, hR'⟩, ?_⟩
        intro s₂ hs₂
        rw [hs₁] at hs₂
        cases hs₂
        have hI := hinv s t a s' hs hR henabled hs₁ hR'
        refine (ih hI hR' (hrest s' hs₁)).mp ?_
        intro bs hbs
        obtain ⟨s'', hs'', hR''⟩ := hall (a :: bs) ((List.prefix_cons_inj a).mpr hbs)
        rw [run_cons, hs₁, Option.bind_some] at hs''
        exact ⟨s'', hs'', hR''⟩
      · rintro ⟨-, ha, hallowed⟩ bs hbs
        cases bs with
        | nil => exact ⟨s, rfl, hR⟩
        | cons b bs =>
            obtain ⟨rfl, hbs'⟩ := List.cons_prefix_cons.mp hbs
            obtain ⟨s₁, hs₁, hR'⟩ := (hstep s t b hs hR henabled).mpr ha
            have hI := hinv s t b s₁ hs hR henabled hs₁ hR'
            obtain ⟨s', hs', hR''⟩ := (ih hI hR' (hrest s₁ hs₁)).mpr (hallowed s₁ hs₁) bs hbs'
            refine ⟨s', ?_, hR''⟩
            rw [run_cons, hs₁, Option.bind_some, hs']

end System

end Slience
