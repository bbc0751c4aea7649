import LatticeObservables.Evaluation.Observable
import LatticeObservables.Proofs.Outcome

/-!
# What an Evaluation Reads

The basic operators of an observable are what its evaluation reads, no more and no less. A
computation `Reads` a list of operators if it cannot tell contexts apart that agree on them,
if it succeeds only when all of them have a value, and if it fails only with the report of
one that has none or of a value that is not real. Reading closes under sequencing
(`Reads.bind`), so the operators of a composite are collected step by step along its
evaluation.

A value that is not real stops the evaluation of two observables only: a spin correlation of
two sites, once all of its operators are read, and a Hamiltonian, at one of its two spin
correlations (`TJKHamiltonian.Refuses`).
-/

namespace LatticeObservables

variable {R α β : Type}

namespace MeasurementContext

/-- Whether a context **covers** operators: it has a value for each of them. -/
def Covers (c : MeasurementContext R) (operators : List BasicOperator) : Prop :=
  ∀ o ∈ operators, (c.get? o).isSome

/-- Whether two contexts **agree** on operators, in the presence of a value and in the
value. -/
def Agree (c₁ c₂ : MeasurementContext R) (operators : List BasicOperator) : Prop :=
  ∀ o ∈ operators, c₁.get? o = c₂.get? o

/-- A concatenation is covered part by part. -/
theorem covers_append {c : MeasurementContext R} {l₁ l₂ : List BasicOperator} :
    c.Covers (l₁ ++ l₂) ↔ c.Covers l₁ ∧ c.Covers l₂ :=
  List.forall_mem_append

/-- A context that has no value for one of the operators does not cover them. -/
theorem not_covers_of_get?_eq_none {c : MeasurementContext R} {l : List BasicOperator}
    {o : BasicOperator} (ho : o ∈ l) (h : c.get? o = none) : ¬ c.Covers l := by
  intro hc
  have hsome := hc o ho
  rw [h] at hsome
  exact absurd hsome (by simp)

/-- Reading finds a value exactly when there is one. -/
theorem read_eq_ok {c : MeasurementContext R} {o : BasicOperator} {z : Complex R} :
    c.read o = .ok z ↔ c.get? o = some z := by
  rw [read]
  cases c.get? o with
  | none => simp
  | some value => simp

/-- Reading fails exactly when there is no value, and reports the operator. -/
theorem read_eq_error {c : MeasurementContext R} {o : BasicOperator} {e : EvaluationError R} :
    c.read o = .error e ↔ c.get? o = none ∧ e = .missingMeasurement o := by
  rw [read]
  cases c.get? o with
  | none => simp [eq_comm]
  | some value => simp

end MeasurementContext

/-! ### Reading -/

/-- A computation **reads** the given operators. -/
structure Reads (operators : List BasicOperator)
    (f : MeasurementContext R → Except (EvaluationError R) α) : Prop where
  eq_of_agree : ∀ c₁ c₂ : MeasurementContext R, c₁.Agree c₂ operators → f c₁ = f c₂
  covers : ∀ (c : MeasurementContext R) (a : α), f c = .ok a → c.Covers operators
  error : ∀ (c : MeasurementContext R) (e : EvaluationError R), f c = .error e →
    (∃ o ∈ operators, c.get? o = none ∧ e = .missingMeasurement o) ∨ ∃ z, e = .notReal z

namespace Reads

/-- A value that is there from the start reads nothing. -/
theorem pure (a : α) : Reads [] (fun _ : MeasurementContext R => Pure.pure a) where
  eq_of_agree := fun _ _ _ => rfl
  covers := by
    intro c a' _ o ho
    exact absurd ho (by simp)
  error := by
    intro c e h
    cases h

/-- Looking one operator up reads that operator. -/
theorem read (o : BasicOperator) :
    Reads [o] (fun c : MeasurementContext R => c.read o) where
  eq_of_agree := by
    intro c₁ c₂ h
    simp only [MeasurementContext.read, h o (by simp)]
  covers := by
    intro c z h o' ho'
    obtain rfl := List.mem_singleton.mp ho'
    rw [MeasurementContext.read_eq_ok.mp h]
    rfl
  error := by
    intro c e h
    obtain ⟨hnone, rfl⟩ := MeasurementContext.read_eq_error.mp h
    exact .inl ⟨o, by simp, hnone, rfl⟩

/-- A sequence reads what its steps read, the first step first. -/
theorem bind {l₁ l₂ : List BasicOperator}
    {f : MeasurementContext R → Except (EvaluationError R) α}
    {g : α → MeasurementContext R → Except (EvaluationError R) β}
    (hf : Reads l₁ f) (hg : ∀ a, Reads l₂ (g a)) :
    Reads (l₁ ++ l₂) (fun c => f c >>= fun a => g a c) where
  eq_of_agree := by
    intro c₁ c₂ h
    obtain ⟨h₁, h₂⟩ := List.forall_mem_append.mp h
    simp only [hf.eq_of_agree c₁ c₂ h₁]
    exact bind_congr fun a => (hg a).eq_of_agree c₁ c₂ h₂
  covers := by
    intro c b h
    obtain ⟨a, ha, hb⟩ := bind_eq_ok.mp h
    exact MeasurementContext.covers_append.mpr ⟨hf.covers c a ha, (hg a).covers c b hb⟩
  error := by
    intro c e h
    rcases bind_eq_error.mp h with h | ⟨a, -, h⟩
    · refine (hf.error c e h).imp_left ?_
      rintro ⟨o, ho, hnone, he⟩
      exact ⟨o, List.mem_append_left _ ho, hnone, he⟩
    · refine ((hg a).error c e h).imp_left ?_
      rintro ⟨o, ho, hnone, he⟩
      exact ⟨o, List.mem_append_right _ ho, hnone, he⟩

/-- The order of the operators and repetitions among them do not matter. -/
theorem of_mem_iff {l₁ l₂ : List BasicOperator}
    {f : MeasurementContext R → Except (EvaluationError R) α} (hf : Reads l₁ f)
    (h : ∀ o, o ∈ l₁ ↔ o ∈ l₂) : Reads l₂ f where
  eq_of_agree := fun c₁ c₂ hagree =>
    hf.eq_of_agree c₁ c₂ fun o ho => hagree o ((h o).mp ho)
  covers := fun c a hok o ho => hf.covers c a hok o ((h o).mpr ho)
  error := by
    intro c e he
    refine (hf.error c e he).imp_left ?_
    rintro ⟨o, ho, hnone, rfl⟩
    exact ⟨o, (h o).mp ho, hnone, rfl⟩

/-- Computing with a value that was read reads nothing more. -/
theorem map {l : List BasicOperator} {f : MeasurementContext R → Except (EvaluationError R) α}
    (hf : Reads l f) (g : α → β) : Reads l (fun c => do return g (← f c)) :=
  (hf.bind fun a => .pure (g a)).of_mem_iff (by simp)

end Reads

/-- A computation is **lenient** if it refuses no value as not real. -/
def Lenient (f : MeasurementContext R → Except (EvaluationError R) α) : Prop :=
  ∀ (c : MeasurementContext R) (z : Complex R), f c ≠ .error (.notReal z)

namespace Lenient

/-- A value that is there from the start is not refused. -/
theorem pure (a : α) : Lenient (fun _ : MeasurementContext R => Pure.pure a) := by
  intro c z h
  cases h

/-- Looking an operator up refuses no value. -/
theorem read (o : BasicOperator) : Lenient (fun c : MeasurementContext R => c.read o) := by
  intro c z h
  exact absurd (MeasurementContext.read_eq_error.mp h).2 (by simp)

/-- A sequence of lenient computations is lenient. -/
theorem bind {f : MeasurementContext R → Except (EvaluationError R) α}
    {g : α → MeasurementContext R → Except (EvaluationError R) β}
    (hf : Lenient f) (hg : ∀ a, Lenient (g a)) : Lenient (fun c => f c >>= fun a => g a c) := by
  intro c z h
  rcases bind_eq_error.mp h with h | ⟨a, -, h⟩
  · exact hf c z h
  · exact hg a c z h

/-- Computing with a value that was read refuses none. -/
theorem map {f : MeasurementContext R → Except (EvaluationError R) α} (hf : Lenient f)
    (g : α → β) : Lenient (fun c => do return g (← f c)) :=
  hf.bind fun a => .pure (g a)

/-- What is refused behind a lenient computation is refused after it has read all of its
operators. -/
theorem covers_of_bind_eq_notReal {l : List BasicOperator}
    {f : MeasurementContext R → Except (EvaluationError R) α}
    {next : α → Except (EvaluationError R) β} {c : MeasurementContext R} {z : Complex R}
    (hl : Lenient f) (hr : Reads l f) (h : f c >>= next = .error (.notReal z)) :
    c.Covers l ∧ ∃ a, f c = .ok a ∧ next a = .error (.notReal z) := by
  rcases bind_eq_error.mp h with h | ⟨a, ha, h⟩
  · exact absurd h (hl c z)
  · exact ⟨hr.covers c a ha, a, ha, h⟩

end Lenient

/-! ### Sums -/

variable [Scalar R]

/-- A running sum reads the operators that are still to be added. -/
theorem reads_foldlM_read (operators : List BasicOperator) (total : Complex R) :
    Reads operators (fun c : MeasurementContext R =>
      operators.foldlM (fun total o => return total + (← c.read o)) total) := by
  induction operators generalizing total with
  | nil => exact .pure total
  | cons o rest ih =>
      have step : Reads ([o] ++ []) fun c : MeasurementContext R => do
          return total + (← c.read o) :=
        (Reads.read o).bind fun z => .pure (total + z)
      exact step.bind ih

/-- A running sum is lenient. -/
theorem lenient_foldlM_read (operators : List BasicOperator) (total : Complex R) :
    Lenient (fun c : MeasurementContext R =>
      operators.foldlM (fun total o => return total + (← c.read o)) total) := by
  induction operators generalizing total with
  | nil => exact .pure total
  | cons o rest ih =>
      have step : Lenient fun c : MeasurementContext R => do
          return total + (← c.read o) :=
        (Lenient.read o).bind fun z => .pure (total + z)
      exact step.bind ih

/-- A sum of measured values reads its operators. -/
theorem reads_measuredSum (operators : List BasicOperator) :
    Reads operators (measuredSum (R := R) operators) :=
  reads_foldlM_read operators Complex.zero

/-- A sum of measured values is lenient. -/
theorem lenient_measuredSum (operators : List BasicOperator) :
    Lenient (measuredSum (R := R) operators) :=
  lenient_foldlM_read operators Complex.zero

/-- A sum of measured values is the sum of **what is read**, operator by operator. -/
theorem measuredSum_eq_map_mapM (operators : List BasicOperator) (c : MeasurementContext R) :
    measuredSum operators c = (operators.mapM c.read).map Complex.sum := by
  have running (total : Complex R) :
      operators.foldlM (fun total o => return total + (← c.read o)) total =
        (operators.mapM c.read).map fun zs => zs.foldl (· + ·) total := by
    induction operators generalizing total with
    | nil => rfl
    | cons o rest ih =>
        rw [List.foldlM_cons, List.mapM_cons]
        cases c.read o with
        | error e => rfl
        | ok z =>
            refine (ih (total + z)).trans ?_
            cases rest.mapM c.read with
            | error e => rfl
            | ok zs => rfl
  exact running Complex.zero

/-- A sum of measured values exists exactly if **all operators have values**. -/
theorem measuredSum_eq_ok_iff {operators : List BasicOperator} {c : MeasurementContext R}
    {z : Complex R} :
    measuredSum operators c = .ok z ↔
      ∃ zs, List.Forall₂ (fun o v => c.get? o = some v) operators zs ∧ Complex.sum zs = z := by
  rw [measuredSum_eq_map_mapM, map_eq_ok]
  simp only [mapM_eq_ok, MeasurementContext.read_eq_ok]

/-- A sum of operators that have values is the **sum of the values**. -/
theorem measuredSum_eq_ok {operators : List BasicOperator} {c : MeasurementContext R}
    {value : BasicOperator → Complex R} (h : ∀ o ∈ operators, c.get? o = some (value o)) :
    measuredSum operators c = .ok (Complex.sum (operators.map value)) := by
  refine measuredSum_eq_ok_iff.mpr ⟨operators.map value, ?_, rfl⟩
  rw [List.forall₂_map_right_iff, List.forall₂_same]
  exact h

/-! ### Spin correlations -/

/-- The check that a value is real reads nothing more. -/
theorem reads_realPart (value : Complex R) :
    Reads [] (fun _ : MeasurementContext R => realPart value) where
  eq_of_agree := fun _ _ _ => rfl
  covers := by
    intro c a _ o ho
    exact absurd ho (by simp)
  error := by
    intro c e h
    rw [realPart] at h
    split at h
    · cases h
    · cases h
      exact .inr ⟨value, rfl⟩

namespace SpinSpin

/-- A spin correlation reads its operators. -/
theorem reads_evaluate (o : SpinSpin) : Reads o.operators (o.evaluate (R := R)) := by
  cases o with
  | sameSite up down =>
      exact (Reads.read up).bind fun u => (Reads.read down).bind fun d => .pure _
  | twoSites upUp downDown upDown downUp exchange =>
      have inOrder : Reads [exchange, upUp, downDown, upDown, downUp]
          (evaluate (R := R) (twoSites upUp downDown upDown downUp exchange)) :=
        (Reads.read exchange).bind fun _ => (Reads.read upUp).bind fun _ =>
          (Reads.read downDown).bind fun _ => (Reads.read upDown).bind fun _ =>
            (Reads.read downUp).bind fun _ => (reads_realPart _).bind fun _ => .pure _
      have reordered : ([exchange] ++ [upUp, downDown, upDown, downUp]).Perm
          ([upUp, downDown, upDown, downUp] ++ [exchange]) :=
        List.perm_append_comm
      exact inOrder.of_mem_iff fun _ => reordered.mem_iff

/-- The correlation of one site with itself is lenient. -/
theorem lenient_evaluate_sameSite (up down : BasicOperator) :
    Lenient (evaluate (R := R) (sameSite up down)) :=
  (Lenient.read up).bind fun _ => (Lenient.read down).bind fun _ => .pure _

/-- What a spin correlation refuses belongs to two sites, and all of its operators are
read by then. -/
theorem covers_of_evaluate_eq_notReal {o : SpinSpin} {c : MeasurementContext R} {z : Complex R}
    (h : o.evaluate c = .error (.notReal z)) : o.isSameSite = false ∧ c.Covers o.operators := by
  cases o with
  | sameSite up down => exact absurd h (lenient_evaluate_sameSite up down c z)
  | twoSites upUp downDown upDown downUp exchange =>
      have step {o : BasicOperator} {next : Complex R → Except (EvaluationError R) (Complex R)}
          (h : c.read o >>= next = .error (.notReal z)) :=
        (Lenient.read o).covers_of_bind_eq_notReal (Reads.read o) h
      obtain ⟨he, _, -, h⟩ := step h
      obtain ⟨huu, _, -, h⟩ := step h
      obtain ⟨hdd, _, -, h⟩ := step h
      obtain ⟨hud, _, -, h⟩ := step h
      obtain ⟨hdu, _, -, -⟩ := step h
      refine ⟨rfl, ?_⟩
      simp only [MeasurementContext.Covers, List.mem_singleton, forall_eq] at he huu hdd hud hdu
      simp [operators, MeasurementContext.Covers, he, huu, hdd, hud, hdu]

end SpinSpin

/-! ### Ring exchanges -/

/-- A singlet ring exchange reads its operators. -/
theorem SingletRingExchange.reads_evaluate (o : SingletRingExchange) :
    Reads o.operators (o.evaluate (R := R)) :=
  (reads_measuredSum o.operators).map _

/-- A singlet ring exchange is lenient. -/
theorem SingletRingExchange.lenient_evaluate (o : SingletRingExchange) :
    Lenient (o.evaluate (R := R)) :=
  (lenient_measuredSum o.operators).map _

/-- A spin ring exchange reads its operators, those with a plus sign first. -/
theorem SpinRingExchange.reads_evaluate (o : SpinRingExchange) :
    Reads o.operators (o.evaluate (R := R)) :=
  (reads_measuredSum o.aligned).bind fun _ => (reads_measuredSum o.mixed).map _

/-- A spin ring exchange is lenient. -/
theorem SpinRingExchange.lenient_evaluate (o : SpinRingExchange) :
    Lenient (o.evaluate (R := R)) :=
  (lenient_measuredSum o.aligned).bind fun _ => (lenient_measuredSum o.mixed).map _

/-! ### Hamiltonians -/

namespace TJKHamiltonian

/-- Whether a Hamiltonian **refuses** a value in a context: one of its spin correlations
refuses it, and the operators of all terms up to that one are covered. -/
def Refuses (h : TJKHamiltonian) (c : MeasurementContext R) (z : Complex R) : Prop :=
  (c.Covers (h.hopsX.operators ++ h.hopsY.operators ++ h.spinSpinX.operators) ∧
    h.spinSpinX.evaluate c = .error (.notReal z)) ∨
  (c.Covers (h.hopsX.operators ++ h.hopsY.operators ++ h.spinSpinX.operators ++
      h.spinSpinY.operators) ∧
    h.spinSpinY.evaluate c = .error (.notReal z))

/-- A Hamiltonian reads its operators, term by term. -/
theorem reads_evaluate (h : TJKHamiltonian) : Reads h.operators (h.evaluate (R := R)) := by
  have inOrder : Reads (h.hopsX.operators ++ (h.hopsY.operators ++ (h.spinSpinX.operators ++
      (h.spinSpinY.operators ++ h.ring.operators)))) (h.evaluate (R := R)) :=
    (reads_measuredSum _).bind fun _ => (reads_measuredSum _).bind fun _ =>
      h.spinSpinX.reads_evaluate.bind fun _ => h.spinSpinY.reads_evaluate.bind fun _ =>
        h.ring.reads_evaluate.map _
  simpa only [operators, List.append_assoc] using inOrder

/-- What a Hamiltonian reports as not real, one of its spin correlations refused. -/
theorem refuses_of_evaluate_eq_notReal {h : TJKHamiltonian} {c : MeasurementContext R}
    {z : Complex R} (hz : h.evaluate c = .error (.notReal z)) : h.Refuses c z := by
  obtain ⟨hx, _, -, hz⟩ :=
    (lenient_measuredSum h.hopsX.operators).covers_of_bind_eq_notReal (reads_measuredSum _) hz
  obtain ⟨hy, _, -, hz⟩ :=
    (lenient_measuredSum h.hopsY.operators).covers_of_bind_eq_notReal (reads_measuredSum _) hz
  rcases bind_eq_error.mp hz with hz | ⟨x, hok, hz⟩
  · have hsx := (SpinSpin.covers_of_evaluate_eq_notReal hz).2
    exact .inl ⟨by simp only [MeasurementContext.covers_append, hx, hy, hsx, and_self], hz⟩
  have hsx := h.spinSpinX.reads_evaluate.covers c x hok
  rcases bind_eq_error.mp hz with hz | ⟨y, -, hz⟩
  · have hsy := (SpinSpin.covers_of_evaluate_eq_notReal hz).2
    exact .inr ⟨by simp only [MeasurementContext.covers_append, hx, hy, hsx, hsy, and_self], hz⟩
  · exact absurd hz (h.ring.lenient_evaluate.map _ c z)

end TJKHamiltonian

/-! ### Observables -/

namespace Observable

/-- An observable reads its terms. -/
theorem reads_evaluate_terms (o : Observable) : Reads o.terms (o.evaluate (R := R)) := by
  cases o with
  | basic o => exact (Reads.read o).map _
  | densityDensity o => exact (reads_measuredSum o.operators).map _
  | spinSpin o => exact o.reads_evaluate.map _
  | singletRing o => exact o.reads_evaluate.map _
  | hamiltonian o => exact o.reads_evaluate.map _
  | spinRing o => exact o.reads_evaluate.map _

/-- An observable reads its basic operators. -/
theorem reads_evaluate (o : Observable) : Reads o.basicOperators (o.evaluate (R := R)) :=
  o.reads_evaluate_terms.of_mem_iff fun _ => mem_firstSeen.symm

/-- What an observable reports as not real, a spin correlation of two sites refused after all
of its operators were read, or a Hamiltonian. -/
theorem refuses_of_evaluate_eq_notReal {o : Observable} {c : MeasurementContext R}
    {z : Complex R} (hz : o.evaluate c = .error (.notReal z)) :
    (∃ s, o = spinSpin s ∧ s.isSameSite = false ∧ c.Covers o.basicOperators) ∨
      ∃ h, o = hamiltonian h ∧ h.Refuses c z := by
  cases o with
  | basic o => exact absurd hz ((Lenient.read o).map _ c z)
  | densityDensity o => exact absurd hz ((lenient_measuredSum o.operators).map _ c z)
  | spinSpin o =>
      obtain ⟨hsites, hcovers⟩ :=
        SpinSpin.covers_of_evaluate_eq_notReal (return_eq_error.mp hz)
      exact .inl ⟨o, rfl, hsites, fun b hb => hcovers b (mem_firstSeen.mp hb)⟩
  | singletRing o => exact absurd hz (o.lenient_evaluate.map _ c z)
  | hamiltonian h =>
      exact .inr ⟨h, rfl, TJKHamiltonian.refuses_of_evaluate_eq_notReal (return_eq_error.mp hz)⟩
  | spinRing o => exact absurd hz (o.lenient_evaluate.map _ c z)

/-- No measurement is missing in a context that covers the basic operators. -/
theorem evaluate_ne_missingMeasurement {o : Observable} {c : MeasurementContext R}
    (h : c.Covers o.basicOperators) (b : BasicOperator) :
    o.evaluate c ≠ .error (.missingMeasurement b) := by
  intro he
  rcases o.reads_evaluate.error c _ he with ⟨b', hb', hnone, -⟩ | ⟨z, hz⟩
  · exact MeasurementContext.not_covers_of_get?_eq_none hb' hnone h
  · cases hz

/-- **The basic operators of an observable are what its evaluation reads.** If one of them has
no value, the evaluation fails: it reports one that has none, or it is that of a Hamiltonian
and refuses a spin correlation before it gets to the missing one. If all of them have a value,
it fails only by refusing a value as not real, in a spin correlation of two sites or in a
Hamiltonian. Contexts that agree on them give the same result. -/
theorem evaluate_reads_exactly_basicOperators (o : Observable) :
    (∀ c : MeasurementContext R, (∃ b ∈ o.basicOperators, c.get? b = none) →
      (∃ b ∈ o.basicOperators, c.get? b = none ∧
        o.evaluate c = .error (.missingMeasurement b)) ∨
      ∃ h z, o = hamiltonian h ∧ h.Refuses c z ∧ o.evaluate c = .error (.notReal z)) ∧
    (∀ c : MeasurementContext R, (∀ b ∈ o.basicOperators, (c.get? b).isSome) →
      ∀ e, o.evaluate c = .error e →
        ∃ z, e = .notReal z ∧
          ((∃ s, o = spinSpin s ∧ s.isSameSite = false) ∨ ∃ h, o = hamiltonian h)) ∧
    (∀ c₁ c₂ : MeasurementContext R, (∀ b ∈ o.basicOperators, c₁.get? b = c₂.get? b) →
      o.evaluate c₁ = o.evaluate c₂) := by
  have reads := o.reads_evaluate (R := R)
  refine ⟨?missing, ?present, reads.eq_of_agree⟩
  case missing =>
    rintro c ⟨b, hb, hnone⟩
    have uncovered := MeasurementContext.not_covers_of_get?_eq_none hb hnone
    obtain ⟨e, he⟩ := exists_error_of_ne_ok fun a ha => uncovered (reads.covers c a ha)
    rcases reads.error c e he with ⟨b', hb', hnone', rfl⟩ | ⟨z, rfl⟩
    · exact .inl ⟨b', hb', hnone', he⟩
    rcases refuses_of_evaluate_eq_notReal he with ⟨-, -, -, hcovers⟩ | ⟨h, rfl, hz⟩
    · exact absurd hcovers uncovered
    · exact .inr ⟨h, z, rfl, hz, he⟩
  case present =>
    intro c hcovers e he
    rcases reads.error c e he with ⟨b, hb, hnone, -⟩ | ⟨z, rfl⟩
    · exact absurd hcovers (MeasurementContext.not_covers_of_get?_eq_none hb hnone)
    refine ⟨z, rfl, ?_⟩
    rcases refuses_of_evaluate_eq_notReal he with ⟨s, hs, hsites, -⟩ | ⟨h, hh, -⟩
    · exact .inl ⟨s, hs, hsites⟩
    · exact .inr ⟨h, hh⟩

end Observable

end LatticeObservables
