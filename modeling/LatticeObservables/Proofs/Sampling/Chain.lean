import LatticeObservables.Proofs.Sampling.Estimate
import LatticeObservables.Sampling.Chain

/-!
# The Sweeps of a Chain

Which samples a chain has measured. `Sampler.Sweeps` relates two states of a sampler through
the samples of the sweeps between them. An advance that succeeds performs as many sweeps as
it was asked for and adds the sample of each to the estimates (`Chain.advance_eq_ok`), so
what is read after a reset and an advance is the mean over the samples of that advance alone
(`Chain.recent?_of_advance`). A chain that is created has swept as often as equilibration
asks for (`Sampler.create_eq_ok`).
-/

namespace LatticeObservables

variable {W σ R : Type}

/-- The samples of **one sweep**: a value for a plan at each position. -/
abbrev Sweep (W R : Type) : Type :=
  Nat → BasicPlan W → Complex R

/-- The **sweeps** between two states of a sampler: `Sweeps s fs t` if it goes from `s` to
`t` in as many sweeps as `fs` lists, which give the samples in `fs`, in this order. -/
inductive Sampler.Sweeps (sampler : Sampler W σ R) : σ → List (Sweep W R) → σ → Prop
  | nil (s : σ) : Sweeps sampler s [] s
  | cons {s t u : σ} {f : Sweep W R} {fs : List (Sweep W R)} :
      sampler.sweep s = .ok (t, f) → Sweeps sampler t fs u → Sweeps sampler s (f :: fs) u

/-- Sweeps continue where the ones before them ended. -/
theorem Sampler.Sweeps.append {sampler : Sampler W σ R} {s t u : σ} {fs gs : List (Sweep W R)}
    (hfs : sampler.Sweeps s fs t) (hgs : sampler.Sweeps t gs u) :
    sampler.Sweeps s (fs ++ gs) u := by
  induction hfs with
  | nil s => exact hgs
  | cons hsweep _ ih => exact .cons hsweep (ih hgs)

/-- A sampler that **never fails**. -/
def Sampler.Total (sampler : Sampler W σ R) : Prop :=
  ∀ s, ∃ next, sampler.sweep s = .ok next

/-! ### Running estimates -/

namespace RunningEstimate

variable [Scalar R]

/-- What is read after a reset is the **mean of the values added since**. -/
theorem recent?_foldl_add_reset (values : List (Complex R)) (e : RunningEstimate R) :
    (values.foldl add e.reset).recent? = average? (Complex.sum values) values.length := by
  have tally := IsTally.foldl_add (e := e.reset) .nil values
  rw [recent?, tally.sum_eq, tally.count_eq, List.nil_append]

end RunningEstimate

/-! ### Chains -/

/-- What a list without duplicates is zipped with is found by its position. -/
theorem lookup_zip {α β : Type} [DecidableEq α] {l : List α} {m : List β} {i : Nat} {a : α}
    {b : β} (hl : l.Nodup) (ha : l[i]? = some a) (hb : m[i]? = some b) :
    (l.zip m).lookup a = some b := by
  induction l generalizing m i with
  | nil => simp at ha
  | cons c rest ih =>
      obtain ⟨hc, hrest⟩ := List.nodup_cons.mp hl
      cases m with
      | nil => simp at hb
      | cons d others =>
          cases i with
          | zero =>
              simp only [List.getElem?_cons_zero, Option.some.injEq] at ha hb
              simp [ha, hb]
          | succ i =>
              simp only [List.getElem?_cons_succ] at ha hb
              have hac : (a == c) = false := by
                rw [beq_eq_false_iff_ne]
                rintro rfl
                exact hc (List.mem_of_getElem? ha)
              rw [List.zip_cons_cons, List.lookup_cons, hac]
              exact ih hrest ha hb

namespace Chain

/-- A chain keeps **one estimate for each plan**. -/
def Paired (c : Chain W σ R) : Prop :=
  c.estimates.length = c.plans.length

/-- A plan of a chain has an estimate. -/
theorem Paired.exists_estimate {c : Chain W σ R} (hc : c.Paired) {i : Nat} {p : BasicPlan W}
    (hp : c.plans[i]? = some p) : ∃ e, c.estimates[i]? = some e := by
  have hi : i < c.estimates.length := by
    have hlt := (List.getElem?_eq_some_iff.mp hp).1
    simp only [Paired] at hc
    omega
  exact ⟨_, List.getElem?_eq_getElem hi⟩

variable [Scalar R]

/-- Each estimate takes the sample of the plan at its position. -/
theorem getElem?_addSamples {f : Sweep W R} {c : Chain W σ R} {i : Nat} {p : BasicPlan W}
    {e : RunningEstimate R} (hp : c.plans[i]? = some p) (he : c.estimates[i]? = some e) :
    (c.addSamples f)[i]? = some (e.add (f i p)) := by
  have hzip : (c.plans.zip c.estimates)[i]? = some (p, e) :=
    List.getElem?_zip_eq_some.mpr ⟨hp, he⟩
  rw [addSamples, List.getElem?_mapIdx, hzip]
  rfl

/-- Adding samples keeps one estimate for each plan. -/
theorem length_addSamples {f : Sweep W R} {c : Chain W σ R} (hc : c.Paired) :
    (c.addSamples f).length = c.plans.length := by
  simp only [addSamples, List.length_mapIdx, List.length_zip]
  simp only [Paired] at hc
  omega

/-- A reset resets the estimate at every position. -/
theorem getElem?_reset {c : Chain W σ R} {i : Nat} {e : RunningEstimate R}
    (he : c.estimates[i]? = some e) : c.reset.estimates[i]? = some e.reset := by
  rw [reset, List.getElem?_map, he, Option.map_some]

/-- Resetting keeps one estimate for each plan. -/
theorem Paired.reset {c : Chain W σ R} (hc : c.Paired) : c.reset.Paired := by
  simpa [Paired, Chain.reset] using hc

/-- An advance, completed or not, leaves the plans and keeps one estimate for each. -/
theorem plans_advance (sampler : Sampler W σ R) (n : Nat) {c : Chain W σ R} (hc : c.Paired) :
    (advance sampler n c).1.plans = c.plans ∧ (advance sampler n c).1.Paired := by
  induction n generalizing c with
  | zero => exact ⟨rfl, hc⟩
  | succ n ih =>
      rw [advance]
      split
      · exact ⟨rfl, hc⟩
      next t f _ =>
        exact ih (c := { c with estimates := c.addSamples f, source := t })
          (length_addSamples hc)

/-- An advance that succeeds performs the sweeps that it was asked for and **adds the sample
of each sweep to the estimate of each plan**. -/
theorem advance_eq_ok {sampler : Sampler W σ R} {n : Nat} {c c' : Chain W σ R} (hc : c.Paired)
    (h : advance sampler n c = (c', .ok ())) :
    ∃ fs, fs.length = n ∧ sampler.Sweeps c.source fs c'.source ∧
      ∀ i p e, c.plans[i]? = some p → c.estimates[i]? = some e →
        c'.estimates[i]? = some ((fs.map fun f => f i p).foldl RunningEstimate.add e) := by
  induction n generalizing c with
  | zero =>
      simp only [advance, Prod.mk.injEq, and_true] at h
      subst h
      exact ⟨[], rfl, .nil _, fun _ _ _ _ he => he⟩
  | succ n ih =>
      rw [advance] at h
      split at h
      · simp at h
      next t f hsweep =>
        obtain ⟨fs, hlength, hsweeps, hestimates⟩ :=
          ih (c := { c with estimates := c.addSamples f, source := t }) (length_addSamples hc) h
        refine ⟨f :: fs, by rw [List.length_cons, hlength], .cons hsweep hsweeps, ?_⟩
        intro i p e hp he
        exact hestimates i p (e.add (f i p)) hp (getElem?_addSamples hp he)

/-- An advance of a sampler that never fails succeeds. -/
theorem advance_total {sampler : Sampler W σ R} (h : sampler.Total) (n : Nat)
    (c : Chain W σ R) : ∃ c', advance sampler n c = (c', .ok ()) := by
  induction n generalizing c with
  | zero => exact ⟨c, rfl⟩
  | succ n ih =>
      obtain ⟨⟨t, f⟩, hsweep⟩ := h c.source
      obtain ⟨c', hc'⟩ := ih { c with estimates := c.addSamples f, source := t }
      refine ⟨c', ?_⟩
      rw [advance, hsweep]
      exact hc'

/-- The estimate of a plan is the one at its position. -/
theorem recent?_eq [DecidableEq W] {c : Chain W σ R} (hplans : c.plans.Nodup) {i : Nat}
    {p : BasicPlan W} {e : RunningEstimate R} (hp : c.plans[i]? = some p)
    (he : c.estimates[i]? = some e) : c.recent? p = e.recent? := by
  rw [recent?, lookup_zip hplans hp he, Option.bind_some]

/-- What is read after a reset and an advance is the **mean over the sweeps of that
advance**, for each plan over its own samples. -/
theorem recent?_of_advance [DecidableEq W] {sampler : Sampler W σ R} {n : Nat}
    {c c' : Chain W σ R} (hc : c.Paired) (hplans : c.plans.Nodup)
    (h : advance sampler n c.reset = (c', .ok ())) :
    c'.plans = c.plans ∧ c'.Paired ∧
      ∃ fs, fs.length = n ∧ sampler.Sweeps c.source fs c'.source ∧
        ∀ i p, c.plans[i]? = some p →
          c'.recent? p =
            RunningEstimate.average? (Complex.sum (fs.map fun f => f i p)) n := by
  have hkept := plans_advance sampler n hc.reset
  rw [h] at hkept
  obtain ⟨hkeeps, hpaired⟩ := hkept
  obtain ⟨fs, hlength, hsweeps, hestimates⟩ := advance_eq_ok hc.reset h
  refine ⟨hkeeps, hpaired, fs, hlength, hsweeps, ?_⟩
  intro i p hp
  obtain ⟨e, he⟩ := hc.exists_estimate hp
  have hestimate := hestimates i p e.reset hp (getElem?_reset he)
  rw [recent?_eq (hkeeps ▸ hplans) (hkeeps ▸ hp) hestimate,
    RunningEstimate.recent?_foldl_add_reset, List.length_map, hlength]

end Chain

/-! ### Creation -/

namespace Sampler

variable [Scalar R]

/-- The chain of a request **before equilibration**. -/
def fresh (sampler : Sampler W σ R) (request : Request W) : Chain W σ R where
  plans := request.plans
  estimates := request.plans.map fun _ => RunningEstimate.fresh
  source := sampler.start request

/-- Before equilibration there is one estimate for each plan. -/
theorem paired_fresh (sampler : Sampler W σ R) (request : Request W) :
    (sampler.fresh request).Paired := by
  simp [Chain.Paired, fresh]

/-- A chain is created by equilibrating it and resetting its estimates. -/
theorem create_eq [DecidableEq W] (sampler : Sampler W σ R) (request : Request W) :
    sampler.engine.create request =
      (Chain.advance sampler request.equilibriumSweeps (sampler.fresh request)).2.map fun _ =>
        (Chain.advance sampler request.equilibriumSweeps (sampler.fresh request)).1.reset :=
  rfl

/-- A chain that is created has swept as often as **equilibration** asks for. -/
theorem create_eq_ok [DecidableEq W] {sampler : Sampler W σ R} {request : Request W}
    {c : Chain W σ R} (h : sampler.engine.create request = .ok c) :
    c.plans = request.plans ∧ c.Paired ∧
      ∃ fs, fs.length = request.equilibriumSweeps ∧
        sampler.Sweeps (sampler.start request) fs c.source := by
  obtain ⟨hplans, hkept⟩ := Chain.plans_advance sampler request.equilibriumSweeps
    (sampler.paired_fresh request)
  rcases hadvance : Chain.advance sampler request.equilibriumSweeps (sampler.fresh request)
    with ⟨d, outcome⟩
  rw [hadvance] at hplans hkept
  rw [create_eq, hadvance] at h
  cases outcome with
  | error reason => simp [Except.map] at h
  | ok _ =>
      simp only [Except.map, Except.ok.injEq] at h
      subst h
      obtain ⟨fs, hlength, hsweeps, _⟩ :=
        Chain.advance_eq_ok (sampler.paired_fresh request) hadvance
      exact ⟨hplans, hkept.reset, fs, hlength, hsweeps⟩

/-- A sampler that never fails creates a chain for every request. -/
theorem create_total [DecidableEq W] {sampler : Sampler W σ R} (h : sampler.Total)
    (request : Request W) : ∃ c, sampler.engine.create request = .ok c := by
  obtain ⟨c, hc⟩ := Chain.advance_total h request.equilibriumSweeps (sampler.fresh request)
  refine ⟨c.reset, ?_⟩
  rw [create_eq, hc]
  rfl

end Sampler

end LatticeObservables
