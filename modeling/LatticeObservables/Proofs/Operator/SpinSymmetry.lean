import LatticeObservables.Proofs.Evaluation.Exact
import LatticeObservables.Evaluation.Observable
import LatticeObservables.Proofs.Evaluation.Reading
import LatticeObservables.Proofs.Operator.Composite
import LatticeObservables.Proofs.Operator.Relabelling

/-!
# Symmetries of Spin Correlations

The correlation of two spins does not depend on which of them is named first, nor on which way is
up. Both are seen in its terms: exchanging the sites exchanges the two densities of opposite spins
and turns the exchange into its adjoint, and so does turning all spins around, which exchanges the
two densities of like spins besides. The value does not change, because the terms that are exchanged
have equal weights and the exchange is counted together with its conjugate.

## Main statements

* `SpinSpin.exists_twoSites`: the terms of a correlation of two sites.
* `SpinSpin.evaluate_twoSites`: its value.
* `SpinSpin.exchanged_and_flipped`: both symmetries, of the terms and of the value.
-/

namespace LatticeObservables

/-! ### Reversal and spin flip -/

namespace Relabelling

/-- **Reversal** of every move: source and destination are exchanged. -/
def reversal : Relabelling where
  move m := (m.2.1, m.1, m.2.2)
  conditions := id
  move_involutive := fun _ => rfl
  conditions_involutive := fun _ => rfl
  dimension_move := fun _ h => ⟨h, rfl⟩
  dimension_conditions := fun _ => rfl

/-- The species with the other spin; species that are not spins are left as they are. -/
def otherSpin : Nat → Nat
  | 0 => 1
  | 1 => 0
  | species => species

/-- Spins turned around twice are as before. -/
theorem otherSpin_involutive : Function.Involutive otherSpin
  | 0 => rfl
  | 1 => rfl
  | _ + 2 => rfl

/-- The **spin flip**: every particle has the other spin. -/
def spinFlip : Relabelling where
  move m := (m.1, m.2.1, otherSpin m.2.2)
  conditions := id
  move_involutive := fun m => by simp only [otherSpin_involutive m.2.2]
  conditions_involutive := fun _ => rfl
  dimension_move := fun _ h => ⟨rfl, h⟩
  dimension_conditions := fun _ => rfl

end Relabelling

namespace BasicOperator

/-- The **adjoint**: every hop goes back. -/
def adjoint (o : BasicOperator) : BasicOperator :=
  o.relabel .reversal

/-- The operator with all **spins turned around**. -/
def flip (o : BasicOperator) : BasicOperator :=
  o.relabel .spinFlip

variable {boundary : Option BoundaryConditions} {terms : List Move} {o : BasicOperator}

/-- The adjoint is the product of the reversed moves. -/
theorem IsProduct.adjoint (h : o.IsProduct boundary terms) :
    o.adjoint.IsProduct boundary (terms.map fun m => (m.2.1, m.1, m.2.2)) := by
  have hreversed := h.relabel (f := .reversal)
  rwa [show Relabelling.reversal.conditions = id from rfl, Option.map_id_fun, id] at hreversed

/-- The flipped operator is the product of the moves of particles with the other spin. -/
theorem IsProduct.flip (h : o.IsProduct boundary terms) :
    o.flip.IsProduct boundary
      (terms.map fun m => (m.1, m.2.1, Relabelling.otherSpin m.2.2)) := by
  have hflipped := h.relabel (f := .spinFlip)
  rwa [show Relabelling.spinFlip.conditions = id from rfl, Option.map_id_fun, id] at hflipped

end BasicOperator

namespace SpinSpin

/-! ### Terms -/

variable {first second : Site} {boundary : Option BoundaryConditions}

/-- The correlation of **two sites** can be built, and its terms are the four densities and the
exchange of opposite spins. -/
theorem exists_twoSites (hne : first ≠ second) (hdim : second.dimension = first.dimension)
    (hboundary : ∀ c, boundary = some c → c.dimension = first.dimension) :
    ∃ upUp downDown upDown downUp exchange : BasicOperator,
      build first second boundary = .ok (twoSites upUp downDown upDown downUp exchange) ∧
      upUp.IsProduct boundary [first.stay 0, second.stay 0] ∧
      downDown.IsProduct boundary [first.stay 1, second.stay 1] ∧
      upDown.IsProduct boundary [first.stay 0, second.stay 1] ∧
      downUp.IsProduct boundary [first.stay 1, second.stay 0] ∧
      exchange.IsProduct boundary [(first, second, 0), (second, first, 1)] := by
  obtain ⟨o, ho⟩ := exists_build first second rfl hdim hboundary
  have hterms := forall₂_of_build ho
  rw [expansion, if_neg hne] at hterms
  cases o with
  | sameSite up down => simp [operators] at hterms
  | twoSites upUp downDown upDown downUp exchange =>
      simp only [operators, List.forall₂_cons, List.forall₂_nil_left_iff, and_true] at hterms
      exact ⟨upUp, downDown, upDown, downUp, exchange, ho, hterms⟩

/-! ### Values -/

/-- The value of the correlation of two sites, from those of its terms. -/
def correlation {R : Type} [Scalar R] (upUp downDown upDown downUp exchange : Complex R) :
    Complex R :=
  (-0.5 : R) * exchange.addConj + (0.25 : R) * upUp + (0.25 : R) * downDown
    - (0.25 : R) * upDown - (0.25 : R) * downUp

/-- A correlation of two sites whose terms have values is **the correlation of the values**, as
long as that is real. -/
theorem evaluate_twoSites {R : Type} [Scalar R] {c : MeasurementContext R}
    {upUp downDown upDown downUp exchange : BasicOperator} {uu dd ud du e : Complex R}
    (huu : c.get? upUp = some uu) (hdd : c.get? downDown = some dd)
    (hud : c.get? upDown = some ud) (hdu : c.get? downUp = some du)
    (he : c.get? exchange = some e) :
    (twoSites upUp downDown upDown downUp exchange).evaluate c =
      (realPart (correlation uu dd ud du e)).map fun x => ⟨x, 0.0⟩ := by
  simp only [evaluate, MeasurementContext.read, huu, hdd, hud, hdu, he, bind, Except.bind]
  rfl

section Exact

variable (uu dd ud du e : Complex ℝ)

/-- Two spins are correlated as far as **like spins are commoner than opposite ones**, and as far as
they are not exchanged. -/
theorem re_correlation :
    (correlation uu dd ud du e).re = (uu.re + dd.re - ud.re - du.re) / 4 - e.re := by
  simp only [correlation, Complex.re_add, Complex.re_sub, Complex.re_mul, Complex.re_addConj]
  ring

/-- Only densities bring an imaginary part. -/
theorem im_correlation :
    (correlation uu dd ud du e).im = (uu.im + dd.im - ud.im - du.im) / 4 := by
  simp only [correlation, Complex.im_add, Complex.im_sub, Complex.im_mul, Complex.im_addConj]
  ring

/-- Naming the sites in the other order does not change **the correlation**. -/
theorem correlation_exchanged :
    correlation uu dd du ud e.conj = correlation uu dd ud du e := by
  ext
  · simp only [re_correlation, Complex.re_conj]
    ring
  · simp only [im_correlation]
    ring

/-- Turning all spins around does not change **the correlation**. -/
theorem correlation_flipped :
    correlation dd uu du ud e.conj = correlation uu dd ud du e := by
  ext
  · simp only [re_correlation, Complex.re_conj]
    ring
  · simp only [im_correlation]
    ring

end Exact

/-! ### Symmetries -/

section Symmetric

variable {upUp downDown upDown downUp exchange : BasicOperator} {c : MeasurementContext ℝ}

/-- A correlation without an imaginary part **is its real part**. -/
theorem evaluate_twoSites_of_im_eq_zero {uu dd ud du e : Complex ℝ}
    (huu : c.get? upUp = some uu) (hdd : c.get? downDown = some dd)
    (hud : c.get? upDown = some ud) (hdu : c.get? downUp = some du)
    (he : c.get? exchange = some e) (him : (correlation uu dd ud du e).im = 0) :
    (twoSites upUp downDown upDown downUp exchange).evaluate c =
      .ok ⟨(correlation uu dd ud du e).re, 0⟩ := by
  rw [evaluate_twoSites huu hdd hud hdu he, realPart, if_pos (Complex.isReal_of_im_eq_zero him)]
  norm_num [Except.map]

/-- Terms that are symmetric have **values that are**: the correlation is real, and it is the same
with the sites named in the other order and in the context of the flipped operators. -/
theorem evaluate_symmetric (hself : ∀ b ∈ [upUp, downDown, upDown, downUp], b.adjoint = b)
    (hlike : upUp.flip = downDown) (hopposite : upDown.flip = downUp)
    (hexchange : exchange.flip = exchange.adjoint)
    (hc : ∀ b ∈ [upUp, downDown, upDown, downUp, exchange, exchange.adjoint],
      ∃ z, c.get? b = some z ∧ c.get? b.adjoint = some z.conj) :
    (∃ x, (twoSites upUp downDown upDown downUp exchange).evaluate c = .ok ⟨x, 0⟩) ∧
    (twoSites upUp downDown downUp upDown exchange.adjoint).evaluate c =
      (twoSites upUp downDown upDown downUp exchange).evaluate c ∧
    (twoSites upUp downDown upDown downUp exchange).evaluate (c.relabel .spinFlip) =
      (twoSites upUp downDown upDown downUp exchange).evaluate c := by
  have density {b : BasicOperator} (hb : b ∈ [upUp, downDown, upDown, downUp]) :
      ∃ z, c.get? b = some z ∧ z.im = 0 := by
    obtain ⟨z, hz, hconj⟩ := hc b (by simp only [List.mem_cons] at hb ⊢; tauto)
    rw [hself b hb, hz] at hconj
    have him : z.im = -z.im := congrArg Complex.im (Option.some.inj hconj)
    exact ⟨z, hz, by linarith⟩
  obtain ⟨uu, huu, uu_im⟩ := density (b := upUp) (by simp)
  obtain ⟨dd, hdd, dd_im⟩ := density (b := downDown) (by simp)
  obtain ⟨ud, hud, ud_im⟩ := density (b := upDown) (by simp)
  obtain ⟨du, hdu, du_im⟩ := density (b := downUp) (by simp)
  obtain ⟨e, he, hadjoint⟩ := hc exchange (by simp)
  -- what the operators are read as in the other context, each is the flip of another one
  have flipped {a b : BasicOperator} {z : Complex ℝ} (hflip : b.flip = a)
      (hb : c.get? b = some z) : (c.relabel .spinFlip).get? a = some z := by
    rw [← hflip, ← hb]
    exact c.get?_relabel .spinFlip b
  have back {a b : BasicOperator} (hflip : a.flip = b) : b.flip = a :=
    hflip ▸ BasicOperator.relabel_involutive .spinFlip a
  refine ⟨?real, ?exchanged, ?flipped⟩
  case real =>
    have him : (correlation uu dd ud du e).im = 0 := by
      rw [im_correlation, uu_im, dd_im, ud_im, du_im]
      norm_num
    exact ⟨_, evaluate_twoSites_of_im_eq_zero huu hdd hud hdu he him⟩
  case exchanged =>
    rw [evaluate_twoSites huu hdd hdu hud hadjoint, evaluate_twoSites huu hdd hud hdu he,
      correlation_exchanged]
  case flipped =>
    rw [evaluate_twoSites (flipped (back hlike) hdd) (flipped hlike huu)
      (flipped (back hopposite) hdu) (flipped hopposite hud) (flipped (back hexchange) hadjoint),
      evaluate_twoSites huu hdd hud hdu he, correlation_flipped]

end Symmetric

/-- **A spin correlation is symmetric in its sites and under spin flip.** On two sites, naming them
in the other order exchanges the two densities of opposite spins and takes the adjoint of the
exchange; a spin flip exchanges the two densities of like spins and those of opposite ones, and
takes the adjoint of the exchange too. In a context that has conjugate values for adjoint operators,
the value is therefore real, the same for both orders, and the same once the operators of the
context are flipped. -/
theorem exchanged_and_flipped (hne : first ≠ second) (hdim : second.dimension = first.dimension)
    (hboundary : ∀ c, boundary = some c → c.dimension = first.dimension) :
    ∃ upUp downDown upDown downUp exchange : BasicOperator,
      build first second boundary = .ok (twoSites upUp downDown upDown downUp exchange) ∧
      build second first boundary =
        .ok (twoSites upUp downDown downUp upDown exchange.adjoint) ∧
      upUp.flip = downDown ∧ upDown.flip = downUp ∧ exchange.flip = exchange.adjoint ∧
      ∀ c : MeasurementContext ℝ,
        (∀ b ∈ [upUp, downDown, upDown, downUp, exchange, exchange.adjoint],
          ∃ z, c.get? b = some z ∧ c.get? b.adjoint = some z.conj) →
        (∃ x, (twoSites upUp downDown upDown downUp exchange).evaluate c = .ok ⟨x, 0⟩) ∧
        (twoSites upUp downDown downUp upDown exchange.adjoint).evaluate c =
          (twoSites upUp downDown upDown downUp exchange).evaluate c ∧
        (twoSites upUp downDown upDown downUp exchange).evaluate (c.relabel .spinFlip) =
          (twoSites upUp downDown upDown downUp exchange).evaluate c := by
  obtain ⟨upUp, downDown, upDown, downUp, exchange, hbuild, hupUp, hdownDown, hupDown, hdownUp,
    hexchange⟩ := exists_twoSites hne hdim hboundary
  obtain ⟨_, _, _, _, _, hbuild', hupUp', hdownDown', hupDown', hdownUp', hexchange'⟩ :=
    exists_twoSites hne.symm hdim.symm fun c hc => (hboundary c hc).trans hdim.symm
  obtain rfl := hupUp'.eq hupUp (.swap _ _ _)
  obtain rfl := hdownDown'.eq hdownDown (.swap _ _ _)
  obtain rfl := hupDown'.eq hdownUp (.swap _ _ _)
  obtain rfl := hdownUp'.eq hupDown (.swap _ _ _)
  obtain rfl := hexchange'.eq hexchange.adjoint (.refl _)
  have hlike := hupUp.flip.eq hdownDown (.refl _)
  have hopposite := hupDown.flip.eq hdownUp (.refl _)
  have hflip := hexchange.flip.eq hexchange.adjoint (.swap _ _ _)
  refine ⟨_, _, _, _, _, hbuild, hbuild', hlike, hopposite, hflip, fun c hc =>
    evaluate_symmetric ?_ hlike hopposite hflip hc⟩
  simp only [List.forall_mem_cons]
  exact ⟨hupUp.adjoint.eq hupUp (.refl _), hdownDown.adjoint.eq hdownDown (.refl _),
    hupDown.adjoint.eq hupDown (.refl _), hdownUp.adjoint.eq hdownUp (.refl _), by simp⟩

/-- A product of two hops between cells of a line that stand in canonical order: each has a source,
a destination and a species. -/
def lineProduct (a b : Int × Int × Nat)
    (ordered : Hop.precedes ⟨.ofCell [a.1], .ofCell [a.2.1], a.2.2, rfl⟩
      ⟨.ofCell [b.1], .ofCell [b.2.1], b.2.2, rfl⟩) : BasicOperator where
  hops := [⟨.ofCell [a.1], .ofCell [a.2.1], a.2.2, rfl⟩,
    ⟨.ofCell [b.1], .ofCell [b.2.1], b.2.2, rfl⟩]
  boundary := none
  ordered := by simpa using ordered
  uniform := by simp [Hop.dimension, Site.dimension, Site.ofCell]
  boundary_dimension := by simp

/-- It is the product of both moves. -/
theorem isProduct_lineProduct {a b : Int × Int × Nat} (ordered) :
    (lineProduct a b ordered).IsProduct none
      [(.ofCell [a.1], .ofCell [a.2.1], a.2.2), (.ofCell [b.1], .ofCell [b.2.1], b.2.2)] :=
  ⟨.refl _, rfl⟩

/-- The adjoint of a product of two hops has both of them go back. -/
theorem adjoint_lineProduct {a b : Int × Int × Nat} (ordered)
    (ordered' : Hop.precedes ⟨.ofCell [a.2.1], .ofCell [a.1], a.2.2, rfl⟩
      ⟨.ofCell [b.2.1], .ofCell [b.1], b.2.2, rfl⟩) :
    (lineProduct a b ordered).adjoint =
      lineProduct (a.2.1, a.1, a.2.2) (b.2.1, b.1, b.2.2) ordered' :=
  (isProduct_lineProduct ordered).adjoint.eq (isProduct_lineProduct ordered') (.refl _)

/-- The correlation of two neighbours on a line. -/
def neighbours : SpinSpin :=
  twoSites (lineProduct (0, 0, 0) (1, 1, 0) (by decide))
    (lineProduct (0, 0, 1) (1, 1, 1) (by decide)) (lineProduct (0, 0, 0) (1, 1, 1) (by decide))
    (lineProduct (1, 1, 0) (0, 0, 1) (by decide)) (lineProduct (0, 1, 0) (1, 0, 1) (by decide))

/-- It is built for the two cells. -/
theorem build_neighbours : build (.ofCell [0]) (.ofCell [1]) none = .ok neighbours := by
  have hne : Site.ofCell [0] ≠ Site.ofCell [1] := by decide
  have hnone : ∀ c, (none : Option BoundaryConditions) = some c → c.dimension = 1 := by simp
  obtain ⟨_, _, _, _, _, hbuild, hupUp, hdownDown, hupDown, hdownUp, hexchange⟩ :=
    exists_twoSites hne rfl hnone
  rw [hbuild, neighbours, Except.ok.injEq, twoSites.injEq]
  exact ⟨hupUp.eq (isProduct_lineProduct _) (.refl _),
    hdownDown.eq (isProduct_lineProduct _) (.refl _),
    hupDown.eq (isProduct_lineProduct _) (.refl _),
    hdownUp.eq (isProduct_lineProduct _) (.swap _ _ _),
    hexchange.eq (isProduct_lineProduct _) (.refl _)⟩

/-- What is measured on two neighbours that form a **singlet**. -/
noncomputable def singlet : MeasurementContext ℝ where
  entries := [
    (lineProduct (0, 0, 0) (1, 1, 0) (by decide), ⟨0, 0⟩),
    (lineProduct (0, 0, 1) (1, 1, 1) (by decide), ⟨0, 0⟩),
    (lineProduct (0, 0, 0) (1, 1, 1) (by decide), ⟨1 / 2, 0⟩),
    (lineProduct (1, 1, 0) (0, 0, 1) (by decide), ⟨1 / 2, 0⟩),
    (lineProduct (0, 1, 0) (1, 0, 1) (by decide), ⟨1 / 2, 0⟩),
    (lineProduct (1, 0, 0) (0, 1, 1) (by decide), ⟨1 / 2, 0⟩)]
  nodup := by
    simp only [List.map_cons, List.map_nil]
    decide

/-- The correlation in a singlet is minus three quarters. -/
theorem evaluate_singlet : neighbours.evaluate singlet = .ok ⟨-3 / 4, 0⟩ := by
  have hre : (correlation (R := ℝ) ⟨0, 0⟩ ⟨0, 0⟩ ⟨1 / 2, 0⟩ ⟨1 / 2, 0⟩ ⟨1 / 2, 0⟩).re = -3 / 4 := by
    rw [re_correlation]
    norm_num
  have him : (correlation (R := ℝ) ⟨0, 0⟩ ⟨0, 0⟩ ⟨1 / 2, 0⟩ ⟨1 / 2, 0⟩ ⟨1 / 2, 0⟩).im = 0 := by
    rw [im_correlation]
    norm_num
  rw [← hre]
  exact evaluate_twoSites_of_im_eq_zero rfl rfl rfl rfl rfl him

/-- It is that whichever site is named first and whichever way is up. -/
theorem exchanged_and_flipped_singlet :
    build (.ofCell [0]) (.ofCell [1]) none = .ok neighbours ∧
    neighbours.evaluate (singlet.relabel .spinFlip) = .ok ⟨-3 / 4, 0⟩ ∧
    ∃ o, build (.ofCell [1]) (.ofCell [0]) none = .ok o ∧ o.evaluate singlet = .ok ⟨-3 / 4, 0⟩ := by
  have hne : Site.ofCell [0] ≠ Site.ofCell [1] := by decide
  have hnone : ∀ c, (none : Option BoundaryConditions) = some c → c.dimension = 1 := by simp
  have hreal (x : ℝ) : (Complex.mk x 0).conj = ⟨x, 0⟩ := by
    ext
    · rfl
    · exact neg_zero
  obtain ⟨_, _, _, _, _, hbuild, hbuild', -, -, -, hsymmetric⟩ :=
    exchanged_and_flipped hne rfl hnone
  obtain ⟨rfl, rfl, rfl, rfl, rfl⟩ :=
    twoSites.inj (Except.ok.inj (hbuild.symm.trans build_neighbours))
  obtain ⟨-, hexchanged, hflipped⟩ := hsymmetric singlet (by
    simp (disch := decide) only [List.forall_mem_cons, adjoint_lineProduct]
    refine ⟨⟨⟨0, 0⟩, rfl, ?_⟩, ⟨⟨0, 0⟩, rfl, ?_⟩, ⟨⟨1 / 2, 0⟩, rfl, ?_⟩, ⟨⟨1 / 2, 0⟩, rfl, ?_⟩,
      ⟨⟨1 / 2, 0⟩, rfl, ?_⟩, ⟨⟨1 / 2, 0⟩, rfl, ?_⟩, by simp⟩
    all_goals
      rw [hreal]
      rfl)
  exact ⟨build_neighbours, hflipped.trans evaluate_singlet,
    _, hbuild', hexchanged.trans evaluate_singlet⟩

end SpinSpin

end LatticeObservables
