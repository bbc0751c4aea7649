import Mathlib.Data.UInt
import LatticeObservables.Proofs.Collection.Related
import LatticeObservables.Proofs.Record.Identity
import LatticeObservables.Record.Decode

/-!
# Reading Undoes Writing

Sites, lattices, phases, boundary conditions and run configurations are restored from the text of
their records whenever their numbers fit the words that they are read into, up to the ends of these
words (`Restored`). Lattices are restored whether they have sites or not.

More is read as a phase than is written: the tag can be a number, the fields can be a list of
values, and the fraction need not be in lowest terms. `GivesFraction` says which numerator and
denominator a value gives, without the reader, and `phaseOfJson_eq_ok` says exactly when the reader
accepts it. What is accepted as a boundary condition is that fraction in lowest terms and not zero
(`BoundaryCondition.StandsFor`).

## Main statements

* `phaseOfJson_eq_ok`: which values are accepted as which phases.
* `records_restored`: reading undoes writing for everything that is read back, and boundary
  conditions that are read stand for the fractions that they are read from.
-/

namespace LatticeObservables

/-! ### Lists and numbers -/

/-- Reading undoes writing **for a list** if it does for each of its elements. -/
theorem mapM_map_eq_pure {m : Type → Type} [Monad m] [LawfulMonad m] {α : Type}
    {encode : α → Json} {decode : Json → m α} {l : List α}
    (h : ∀ a ∈ l, decode (encode a) = pure a) : (l.map encode).mapM decode = pure l := by
  induction l with
  | nil => rfl
  | cons a rest ih =>
      obtain ⟨ha, hrest⟩ := List.forall_mem_cons.mp h
      rw [List.map_cons, List.mapM_cons, ha, ih hrest, pure_bind, pure_bind]

namespace Json

/-- A signed integer is read back. -/
theorem signed?_integer {n : Int} (h : Fits 64 n) : (integer n).signed? = some n :=
  if_pos h

/-- A natural number is read back. -/
theorem count?_ofNat {n : Nat} (h : n < 2 ^ 64) : (ofNat n).count? = some n := by
  have hword : 0 ≤ (n : Int) ∧ (n : Int) < twoPower 64 := by
    rw [twoPower_eq]
    omega
  rw [ofNat, count?, if_pos hword, Int.toNat_natCast]

/-- A word holds what fits a signed one. -/
theorem inWord_of_fits {n : Int} (h : Fits 64 n) : InWord n := by
  rw [fits_64] at h
  rw [inWord_iff]
  omega

/-- A word holds what fits an unsigned one. -/
theorem inWord_of_lt {n : Nat} (h : n < 2 ^ 64) : InWord n := by
  rw [inWord_iff]
  omega

end Json

/-- A value **is restored** from the text of its record. -/
def Restored {α : Type} (encode : α → Json) (decode : Json → Option α) (a : α) : Prop :=
  (Json.read? (encode a).render).bind decode = some a

/-- The text of a record whose integers words hold takes nothing away from it. -/
theorem restored_of_inWord {α : Type} {encode : α → Json} {decode : Json → Option α} {a : α}
    (hwords : (encode a).Integral Json.InWord) (hdecode : decode (encode a) = some a) :
    Restored encode decode a := by
  rw [Restored, Json.read?_render_of_inWord hwords, Option.bind_some, hdecode]

/-! ### Sites, lattices and configurations -/

/-- The numbers of a site fit their words. -/
def Site.InWords (s : Site) : Prop :=
  (∀ x ∈ s.coordinates, Fits 64 x) ∧ s.basisIndex < 2 ^ 64

/-- A site is restored. -/
theorem Site.restored {s : Site} (h : s.InWords) : Restored Site.toJson Site.ofJson? s := by
  have hcoordinates : (s.coordinates.map .integer).mapM Json.signed? = some s.coordinates :=
    mapM_map_eq_pure fun x hx => Json.signed?_integer (h.1 x hx)
  refine restored_of_inWord (Site.integral_toJson_iff.mpr
    ⟨fun x hx => Json.inWord_of_fits (h.1 x hx), Json.inWord_of_lt h.2⟩) ?_
  simp [Site.ofJson?, Site.toJson, Json.fieldValues?, Json.field?, Json.items?, hcoordinates,
    Json.count?_ofNat h.2]

/-- The numbers of a lattice fit their words. -/
def Lattice.InWords (l : Lattice) : Prop :=
  (∀ n ∈ l.lengths, n < 2 ^ 64) ∧ l.basisIndices < 2 ^ 64

/-- A lattice is restored, whether it has sites or not. -/
theorem Lattice.restored {l : Lattice} (h : l.InWords) :
    Restored Lattice.toJson Lattice.ofJson? l := by
  have hlengths : (l.lengths.map .ofNat).mapM Json.count? = some l.lengths :=
    mapM_map_eq_pure fun n hn => Json.count?_ofNat (h.1 n hn)
  refine restored_of_inWord ?_ ?_
  · simpa [Lattice.toJson, Json.ofNat] using
      ⟨fun n hn => Json.inWord_of_lt (h.1 n hn), Json.inWord_of_lt h.2⟩
  · simp [Lattice.ofJson?, Lattice.toJson, Json.fieldValues?, Json.field?, Json.items?, hlengths,
      Json.count?_ofNat h.2]

/-- The numbers of a run configuration fit their words. -/
def RunConfig.InWords (c : RunConfig) : Prop :=
  c.equilibriumSweeps < 2 ^ 64 ∧ c.bins < 2 ^ 64 ∧ c.sweepsPerBin < 2 ^ 64

/-- A field that is there is read. -/
theorem withDefault_some {α : Type} (default : α) (decode : Json → Option α) (value : Json) :
    withDefault default decode (some value) = decode value :=
  rfl

/-- The form of a seed, which may be absent. -/
theorem optional?_seed (seed : Option UInt64) :
    Json.optional? Json.count? (.ofOption (fun seed : UInt64 => .ofNat seed.toNat) seed) =
      some (seed.map UInt64.toNat) := by
  cases seed with
  | none => rfl
  | some seed =>
      rw [Json.ofOption, Json.optional?, Json.count?_ofNat seed.toNat_lt]
      · rfl
      · nofun

/-- A run configuration is read from its record, which leaves nothing to the defaults. -/
theorem RunConfig.ofJson?_toJson {c : RunConfig} (h : c.InWords) :
    RunConfig.ofJson? c.toJson = some c := by
  obtain ⟨hequilibrium, hbins, hsweeps⟩ := h
  have hvalues : Json.fieldValues?
      ["equilibrium_sweeps", "bins", "measurement_sweeps_per_bin", "seed"] c.toJson =
        some [some (.ofNat c.equilibriumSweeps), some (.ofNat c.bins),
          some (.ofNat c.sweepsPerBin),
          some (.ofOption (fun seed => .ofNat seed.toNat) c.seed)] := by
    simp [RunConfig.toJson, Json.fieldValues?, Json.field?]
  have hseed : (c.seed.map UInt64.toNat).map Nat.toUInt64 = c.seed := by
    simp [Option.map_map, Function.comp_def]
  rw [RunConfig.toJson] at hvalues ⊢
  rw [RunConfig.ofJson?]
  · rw [hvalues, Option.bind_eq_bind, Option.bind_some]
    beta_reduce
    -- every field is there, so it does not matter what the defaults are
    extract_lets defaults
    clear_value defaults
    dsimp only
    rw [withDefault_some, withDefault_some, withDefault_some, withDefault_some,
      Json.count?_ofNat hequilibrium, Json.count?_ofNat hbins, Json.count?_ofNat hsweeps,
      optional?_seed]
    exact congrArg (fun seed => some { c with seed }) hseed
  · nofun

/-- A run configuration is restored, with and without a seed. -/
theorem RunConfig.restored {c : RunConfig} (h : c.InWords) :
    Restored RunConfig.toJson RunConfig.ofJson? c := by
  have hseed : (Json.ofOption (fun seed : UInt64 => .ofNat seed.toNat) c.seed).Integral
      Json.InWord := by
    cases c.seed with
    | none => exact .null
    | some seed => exact .integer (Json.inWord_of_lt seed.toNat_lt)
  refine restored_of_inWord ?_ (RunConfig.ofJson?_toJson h)
  simpa [RunConfig.toJson, Json.ofNat] using
    ⟨Json.inWord_of_lt h.1, Json.inWord_of_lt h.2.1, Json.inWord_of_lt h.2.2, hseed⟩

/-! ### Phases -/

/-- The numerator and the denominator of a phase fit their words. -/
def PhaseInWords (phase : Rat) : Prop :=
  Fits 64 phase.num ∧ Fits 64 phase.den

/-- A phase that fits its words is written with integers that words hold. -/
theorem PhaseInWords.integral {phase : Rat} (h : PhaseInWords phase) :
    (phaseToJson phase).Integral Json.InWord :=
  integral_phaseToJson (Json.inWord_of_fits h.1) (Json.inWord_of_fits h.2)

/-! ### What is accepted as a phase -/

/-- The tags that **name a fraction**. -/
def NamesFraction (tag : Json) : Prop :=
  tag = .text "Fraction" ∨ tag = .integer 1

/-- A **tagged fraction** with a numerator and a denominator: a record that has the three fields
once each, or the list of their values. -/
inductive TaggedFraction : Json → Int → Int → Prop
  | fields {fields : List (String × Json)} {tag : Json} {n d : Int} (htag : NamesFraction tag)
    (tag_once : fields.filter (·.1 = tagField) = [(tagField, tag)])
    (numerator_once : fields.filter (·.1 = "numerator") = [("numerator", .integer n)])
    (denominator_once : fields.filter (·.1 = "denominator") = [("denominator", .integer d)]) :
    TaggedFraction (.record fields) n d
  | values {tag : Json} {n d : Int} (htag : NamesFraction tag) :
    TaggedFraction (.list [tag, .integer n, .integer d]) n d

/-- The **numerator and denominator that a value gives**. -/
inductive GivesFraction : Json → Int → Int → Prop
  | whole (n : Int) : GivesFraction (.integer n) n 1
  | tagged {v : Json} {n d : Int} (h : TaggedFraction v n d) : GivesFraction v n d

/-- A tagged record gives one fraction. -/
theorem TaggedFraction.unique {v : Json} {n d n' d' : Int} (h : TaggedFraction v n d)
    (h' : TaggedFraction v n' d') : n = n' ∧ d = d' := by
  cases h with
  | fields _ _ hn hd =>
      cases h' with
      | fields _ _ hn' hd' =>
          rw [hn] at hn'
          rw [hd] at hd'
          cases hn'
          cases hd'
          exact ⟨rfl, rfl⟩
  | values _ =>
      cases h'
      exact ⟨rfl, rfl⟩

/-- A value gives one fraction. -/
theorem GivesFraction.unique {v : Json} {n d n' d' : Int} (h : GivesFraction v n d)
    (h' : GivesFraction v n' d') : n = n' ∧ d = d' := by
  cases h with
  | whole _ =>
      cases h' with
      | whole _ => exact ⟨rfl, rfl⟩
      | tagged h' => cases h'
  | tagged h =>
      cases h' with
      | whole _ => cases h
      | tagged h' => exact h.unique h'

/-- A signed integer is read exactly when it fits its word. -/
theorem Json.signed?_eq_some {v : Json} {n : Int} :
    v.signed? = some n ↔ v = .integer n ∧ Fits 64 n := by
  constructor
  · intro h
    rw [signed?.eq_def] at h
    split at h
    next m =>
      obtain ⟨hfits, hm⟩ := Option.ite_none_right_eq_some.mp h
      obtain rfl : m = n := Option.some.inj hm
      exact ⟨rfl, hfits⟩
    next => cases h
  · rintro ⟨rfl, hfits⟩
    exact signed?_integer hfits

/-- A field has a value exactly when it is there once. -/
theorem Json.field?_eq_some {fields : List (String × Json)} {name : String} {value : Json} :
    field? fields name = some (some value) ↔ fields.filter (·.1 = name) = [(name, value)] := by
  have hname : ∀ field ∈ fields.filter (·.1 = name), field.1 = name := by
    simp
  rw [field?]
  generalize fields.filter (·.1 = name) = found at hname
  match found with
  | [] => simp
  | [(other, _)] =>
      obtain rfl : other = name := hname _ List.mem_cons_self
      simp
  | _ :: _ :: _ => simp

/-- A tag is read as that of a fraction exactly when it names fractions. -/
theorem Tagged.kind?_eq_fraction {tag : Json} :
    kind? true tag = some .fraction ↔ NamesFraction tag := by
  constructor
  · intro h
    rw [kind?.eq_def] at h
    split at h
    all_goals first | exact .inl rfl | exact .inr rfl | cases h
  · rintro (rfl | rfl) <;> rfl

/-- The values of the fields make a fraction exactly when they are integers that fit their words. -/
theorem Tagged.ofValues?_eq_fraction {kind : Kind} {values : List (Option Json)} {n d : Int} :
    ofValues? kind values = some (.fraction n d) ↔ kind = .fraction ∧
      values = [some (.integer n), some (.integer d)] ∧ Fits 64 n ∧ Fits 64 d := by
  constructor
  · intro h
    rw [ofValues?.eq_def] at h
    split at h
    next =>
      simp only [Option.bind_eq_bind, Option.bind_eq_some_iff, pure] at h
      obtain ⟨_, _, _, _, h⟩ := h
      cases h
    next numerator denominator =>
      simp only [Option.bind_eq_bind, Option.bind_eq_some_iff, Json.signed?_eq_some] at h
      obtain ⟨_, ⟨rfl, hn⟩, _, ⟨rfl, hd⟩, h⟩ := h
      cases h
      exact ⟨rfl, rfl, hn, hd⟩
    next => cases h
  · rintro ⟨rfl, rfl, hn, hd⟩
    simp [ofValues?, Json.signed?_integer hn, Json.signed?_integer hd]

/-- The values of two fields of a record. -/
theorem Json.fieldValues?_record {fields : List (String × Json)} {first second : String}
    {x y : Option Json} : fieldValues? [first, second] (.record fields) = some [x, y] ↔
      field? fields first = some x ∧ field? fields second = some y := by
  cases hx : field? fields first <;> cases hy : field? fields second <;>
    simp [fieldValues?, hx, hy]

/-- The values of two fields in their order. -/
theorem Json.fieldValues?_list {items : List Json} {first second : String} {x y : Json} :
    fieldValues? [first, second] (.list items) = some [some x, some y] ↔ items = [x, y] := by
  match items with
  | [] | [_] | _ :: _ :: _ :: _ => simp [fieldValues?]
  | [_, _] => simp [fieldValues?]

/-- A tagged fraction is **read exactly** when its numbers fit their words. -/
theorem Tagged.ofJson?_eq_fraction {v : Json} {n d : Int} :
    ofJson? true v = some (.fraction n d) ↔ TaggedFraction v n d ∧ Fits 64 n ∧ Fits 64 d := by
  constructor
  · intro h
    rw [ofJson?.eq_def] at h
    split at h
    next fields =>
      simp only [Option.bind_eq_bind, Option.bind_eq_some_iff, ofValues?_eq_fraction] at h
      obtain ⟨_, htag, tag, rfl, _, hkind, _, hvalues, rfl, rfl, hn, hd⟩ := h
      obtain ⟨hnumerator, hdenominator⟩ := Json.fieldValues?_record.mp hvalues
      exact ⟨.fields (kind?_eq_fraction.mp hkind) (Json.field?_eq_some.mp htag)
        (Json.field?_eq_some.mp hnumerator) (Json.field?_eq_some.mp hdenominator), hn, hd⟩
    next tag rest =>
      simp only [Option.bind_eq_bind, Option.bind_eq_some_iff, ofValues?_eq_fraction] at h
      obtain ⟨_, hkind, _, hvalues, rfl, rfl, hn, hd⟩ := h
      obtain rfl := Json.fieldValues?_list.mp hvalues
      exact ⟨.values (kind?_eq_fraction.mp hkind), hn, hd⟩
    next => cases h
  · rintro ⟨h, hn, hd⟩
    have hparts : ofValues? .fraction [some (.integer n), some (.integer d)] =
        some (.fraction n d) := ofValues?_eq_fraction.mpr ⟨rfl, rfl, hn, hd⟩
    cases h with
    | fields htag tag_once numerator_once denominator_once =>
        have hvalues := Json.fieldValues?_record.mpr
          ⟨Json.field?_eq_some.mpr numerator_once, Json.field?_eq_some.mpr denominator_once⟩
        simp only [ofJson?, Json.field?_eq_some.mpr tag_once, Option.bind_eq_bind,
          Option.bind_some, kind?_eq_fraction.mpr htag, Kind.fields, hvalues, hparts]
    | values htag =>
        have hvalues : Json.fieldValues? Kind.fraction.fields (.list [.integer n, .integer d]) =
          some [some (.integer n), some (.integer d)] := Json.fieldValues?_list.mpr rfl
        simp only [ofJson?, Option.bind_eq_bind, Option.bind_some, kind?_eq_fraction.mpr htag,
          hvalues, hparts]

/-- A fraction in lowest terms is made exactly when its numbers fit their words. -/
theorem Fraction.ofParts_eq_ok {n d : Int} {phase : ℚ} :
    ofParts n d = .ok phase ↔ d ≠ 0 ∧ phase = n / d ∧ PhaseInWords phase := by
  rw [ofParts]
  split
  next hd => simp [hd]
  next hd =>
    rw [← Rat.divInt_eq_div]
    dsimp only
    split
    next hfits =>
      rw [Except.ok.injEq]
      constructor
      · rintro rfl
        exact ⟨hd, rfl, hfits⟩
      · rintro ⟨-, rfl, -⟩
        rfl
    next hfits =>
      refine ⟨nofun, ?_⟩
      rintro ⟨-, rfl, h⟩
      exact absurd h hfits

/-- A phase is **accepted exactly** from what gives a numerator and a denominator that is not
zero, where all numbers fit their words, before and after the fraction is reduced. -/
theorem phaseOfJson_eq_ok {v : Json} {phase : ℚ} :
    phaseOfJson v = .ok phase ↔ ∃ n d, GivesFraction v n d ∧ Fits 64 n ∧ Fits 64 d ∧ d ≠ 0 ∧
      phase = n / d ∧ PhaseInWords phase := by
  constructor
  · intro h
    have one_fits : Fits 64 1 := by decide
    rw [phaseOfJson] at h
    split at h
    next n hsigned =>
      obtain ⟨rfl, hn⟩ := Json.signed?_eq_some.mp hsigned
      obtain rfl := Except.ok.inj h
      exact ⟨n, 1, .whole n, hn, one_fits, one_ne_zero, by simp, hn, one_fits⟩
    next =>
      split at h
      next n d htagged =>
        obtain ⟨hgives, hn, hd⟩ := Tagged.ofJson?_eq_fraction.mp htagged
        split at h
        next => cases h
        next =>
          obtain ⟨hzero, hphase, hfits⟩ := Fraction.ofParts_eq_ok.mp (mapError_eq_ok.mp h)
          exact ⟨n, d, .tagged hgives, hn, hd, hzero, hphase, hfits⟩
      next => cases h
      next => cases h
  · rintro ⟨n, d, hgives, hn, hd, hzero, hphase, hfits⟩
    cases hgives with
    | whole n =>
        rw [phaseOfJson, Json.signed?_integer hn, hphase]
        simp
    | tagged h =>
        have hsigned : v.signed? = none := by cases h <;> rfl
        have htagged := Tagged.ofJson?_eq_fraction.mpr ⟨h, hn, hd⟩
        have hparts := Fraction.ofParts_eq_ok.mpr ⟨hzero, hphase, hfits⟩
        simp only [phaseOfJson, hsigned, htagged, if_neg hzero, hparts]
        rfl

/-- What is written for a phase gives its numerator and its denominator. -/
theorem givesFraction_phaseToJson (phase : ℚ) :
    GivesFraction (phaseToJson phase) phase.num phase.den := by
  rw [phaseToJson]
  split
  next hden =>
    rw [hden]
    exact .whole phase.num
  next hden => exact .tagged (.fields (.inl rfl) rfl rfl rfl)

/-- A phase is read from what it is written as. -/
theorem phaseOfJson_phaseToJson {phase : ℚ} (h : PhaseInWords phase) :
    phaseOfJson (phaseToJson phase) = .ok phase :=
  phaseOfJson_eq_ok.mpr ⟨phase.num, phase.den, givesFraction_phaseToJson phase, h.1, h.2,
    by exact_mod_cast phase.den_nz, (Rat.num_div_den phase).symm, h⟩

/-! ### Boundary conditions -/

/-- A boundary condition is read exactly when its phase is. -/
theorem BoundaryCondition.ofJson_eq_ok {v : Json} {c : BoundaryCondition} :
    BoundaryCondition.ofJson v = .ok c ↔ phaseOfJson v = .ok c.phase := by
  rw [BoundaryCondition.ofJson, bind_eq_ok]
  constructor
  · rintro ⟨phase, hphase, hc⟩
    rw [mapError_eq_ok, ofPhase] at hc
    split at hc
    next => cases hc
    next =>
      obtain rfl := Except.ok.inj hc
      exact hphase
  · intro h
    refine ⟨c.phase, h, mapError_eq_ok.mpr ?_⟩
    rw [ofPhase, dif_neg c.phase_ne_zero]

/-- Boundary conditions are read exactly from lists of which each item is read. -/
theorem BoundaryConditions.ofJson_eq_ok {v : Json} {b : BoundaryConditions} :
    BoundaryConditions.ofJson v = .ok b ↔ ∃ items, v = .list items ∧
      List.Forall₂ (fun item c => BoundaryCondition.ofJson item = .ok c) items b.conditions := by
  constructor
  · intro h
    rw [BoundaryConditions.ofJson.eq_def] at h
    split at h
    next items =>
      obtain ⟨conditions, hconditions, hb⟩ := bind_eq_ok.mp h
      obtain rfl := Except.ok.inj hb
      exact ⟨items, rfl, mapM_eq_ok.mp hconditions⟩
    next => cases h
  · rintro ⟨items, rfl, h⟩
    exact bind_eq_ok.mpr ⟨_, mapM_eq_ok.mpr h, rfl⟩

/-- A phase is restored. -/
theorem phase_restored {phase : ℚ} (h : PhaseInWords phase) :
    Restored phaseToJson (fun v => (phaseOfJson v).toOption) phase :=
  restored_of_inWord h.integral (by rw [phaseOfJson_phaseToJson h]; rfl)

/-- A boundary condition is restored. -/
theorem BoundaryCondition.restored {c : BoundaryCondition} (h : PhaseInWords c.phase) :
    Restored BoundaryCondition.toJson (fun v => (BoundaryCondition.ofJson v).toOption) c := by
  have hread : BoundaryCondition.ofJson c.toJson = .ok c :=
    BoundaryCondition.ofJson_eq_ok.mpr (phaseOfJson_phaseToJson h)
  exact restored_of_inWord h.integral (by rw [hread]; rfl)

/-- Boundary conditions are restored. -/
theorem BoundaryConditions.restored {b : BoundaryConditions}
    (h : ∀ c ∈ b.conditions, PhaseInWords c.phase) :
    Restored BoundaryConditions.toJson (fun v => (BoundaryConditions.ofJson v).toOption) b := by
  have hconditions : (b.conditions.map BoundaryCondition.toJson).mapM BoundaryCondition.ofJson =
      .ok b.conditions := mapM_map_eq_pure fun c hc =>
    BoundaryCondition.ofJson_eq_ok.mpr (phaseOfJson_phaseToJson (h c hc))
  have hread : BoundaryConditions.ofJson b.toJson = .ok b :=
    bind_eq_ok.mpr ⟨_, hconditions, rfl⟩
  refine restored_of_inWord (BoundaryConditions.integral_toJson fun c hc =>
    ⟨Json.inWord_of_fits (h c hc).1, Json.inWord_of_fits (h c hc).2⟩) ?_
  rw [hread]
  rfl

/-- A boundary condition **stands for the fraction that a value gives**, in lowest terms. -/
structure BoundaryCondition.StandsFor (c : BoundaryCondition) (v : Json) : Prop where
  value : ∃ n d, GivesFraction v n d ∧ d ≠ 0 ∧ c.phase = n / d
  nonzero : c.phase ≠ 0
  reduced : c.phase.num.natAbs.Coprime c.phase.den
  positive : 0 < c.phase.den
  restored : Restored BoundaryCondition.toJson
    (fun v => (BoundaryCondition.ofJson v).toOption) c

/-- A boundary condition that is read stands for what it is read from. -/
theorem BoundaryCondition.standsFor_of_ofJson {v : Json} {c : BoundaryCondition}
    (h : BoundaryCondition.ofJson v = .ok c) : c.StandsFor v := by
  obtain ⟨n, d, hgives, -, -, hzero, hphase, hfits⟩ :=
    phaseOfJson_eq_ok.mp (BoundaryCondition.ofJson_eq_ok.mp h)
  exact ⟨⟨n, d, hgives, hzero, hphase⟩, c.phase_ne_zero, c.phase.reduced, c.phase.den_pos,
    BoundaryCondition.restored hfits⟩

/-- Nothing is read where the numerator or the denominator is zero. -/
theorem BoundaryCondition.ofJson_ne_ok {v : Json} {n d : Int} (hgives : GivesFraction v n d)
    (hzero : n = 0 ∨ d = 0) (c : BoundaryCondition) : BoundaryCondition.ofJson v ≠ .ok c := by
  intro h
  obtain ⟨n', d', hgives', hd, hphase⟩ := (BoundaryCondition.standsFor_of_ofJson h).value
  obtain ⟨rfl, rfl⟩ := hgives.unique hgives'
  obtain rfl := hzero.resolve_right hd
  exact c.phase_ne_zero (by simpa using hphase)

/-- What is read as boundary conditions is a list, and each condition stands for its item. -/
theorem BoundaryConditions.standFor_of_ofJson {v : Json} {b : BoundaryConditions}
    (h : BoundaryConditions.ofJson v = .ok b) :
    (∃ items, v = .list items ∧ List.Forall₂ (fun item c => c.StandsFor item) items b.conditions) ∧
      Restored BoundaryConditions.toJson (fun v => (BoundaryConditions.ofJson v).toOption) b := by
  obtain ⟨items, rfl, hitems⟩ := BoundaryConditions.ofJson_eq_ok.mp h
  refine ⟨⟨items, rfl, hitems.imp fun _ _ => BoundaryCondition.standsFor_of_ofJson⟩, ?_⟩
  refine BoundaryConditions.restored fun c hc => ?_
  obtain ⟨item, -, hitem⟩ := exists_of_mem_right hitems hc
  obtain ⟨_, _, -, -, -, -, -, hfits⟩ :=
    phaseOfJson_eq_ok.mp (BoundaryCondition.ofJson_eq_ok.mp hitem)
  exact hfits

/-- **Reading undoes writing** for everything that is read back, up to the ends of the words;
and what is read as boundary conditions, in whatever form it is given, stands for the fractions
that it gives, none of which is zero. -/
theorem records_restored :
    (∀ s : Site, s.InWords → Restored Site.toJson Site.ofJson? s) ∧
    (∀ l : Lattice, l.InWords → Restored Lattice.toJson Lattice.ofJson? l) ∧
    (∀ phase : ℚ, PhaseInWords phase →
      Restored phaseToJson (fun v => (phaseOfJson v).toOption) phase) ∧
    (∀ c : BoundaryCondition, PhaseInWords c.phase →
      Restored BoundaryCondition.toJson (fun v => (BoundaryCondition.ofJson v).toOption) c) ∧
    (∀ b : BoundaryConditions, (∀ c ∈ b.conditions, PhaseInWords c.phase) →
      Restored BoundaryConditions.toJson (fun v => (BoundaryConditions.ofJson v).toOption) b) ∧
    (∀ c : RunConfig, c.InWords → Restored RunConfig.toJson RunConfig.ofJson? c) ∧
    (∀ v c, BoundaryCondition.ofJson v = .ok c → c.StandsFor v) ∧
    (∀ v b, BoundaryConditions.ofJson v = .ok b →
      (∃ items, v = .list items ∧
        List.Forall₂ (fun item c => c.StandsFor item) items b.conditions) ∧
      Restored BoundaryConditions.toJson (fun v => (BoundaryConditions.ofJson v).toOption) b) ∧
    (∀ v n d, GivesFraction v n d → n = 0 ∨ d = 0 →
      (∃ e, BoundaryCondition.ofJson v = .error e) ∧
      ∀ items, v ∈ items → ∃ e, BoundaryConditions.ofJson (.list items) = .error e) := by
  refine ⟨fun _ => Site.restored, fun _ => Lattice.restored, fun _ => phase_restored,
    fun _ => BoundaryCondition.restored, fun _ => BoundaryConditions.restored,
    fun _ => RunConfig.restored, fun _ _ => BoundaryCondition.standsFor_of_ofJson,
    fun _ _ => BoundaryConditions.standFor_of_ofJson, fun v n d hgives hzero => ⟨?_, ?_⟩⟩
  · exact exists_error_of_ne_ok (BoundaryCondition.ofJson_ne_ok hgives hzero)
  · refine fun items hv => exists_error_of_ne_ok fun b hb => ?_
    obtain ⟨_, hlist, hitems⟩ := BoundaryConditions.ofJson_eq_ok.mp hb
    cases hlist
    obtain ⟨c, -, hc⟩ := exists_of_mem_right hitems.flip hv
    exact BoundaryCondition.ofJson_ne_ok hgives hzero c hc

/-- The ends of the words are restored, and a fraction that is neither reduced nor positive below
is accepted in lowest terms. -/
theorem records_restored_extreme :
    let phase : ℚ := ⟨-2 ^ 63, 3, by decide, by decide⟩
    let twist : BoundaryCondition := ⟨phase, by decide⟩
    let half : BoundaryCondition := ⟨-3 / 2, by norm_num⟩
    let unreduced : Json := .list [.integer 1, .integer 6, .integer (-4)]
    let empty : Json := .list [.text "Fraction", .integer 6, .integer 0]
    Restored Site.toJson Site.ofJson? ⟨[-2 ^ 63, 2 ^ 63 - 1], 2 ^ 64 - 1⟩ ∧
    Restored Lattice.toJson Lattice.ofJson? ⟨[0, 2 ^ 64 - 1], 0⟩ ∧
    Restored phaseToJson (fun v => (phaseOfJson v).toOption) phase ∧
    Restored BoundaryCondition.toJson (fun v => (BoundaryCondition.ofJson v).toOption) twist ∧
    Restored BoundaryConditions.toJson (fun v => (BoundaryConditions.ofJson v).toOption)
      ⟨[twist, .periodic]⟩ ∧
    Restored RunConfig.toJson RunConfig.ofJson? ⟨0, 1, 2 ^ 64 - 1, some (2 ^ 64 - 1)⟩ ∧
    half.StandsFor unreduced ∧
    (∃ items, Json.list [unreduced] = .list items ∧
      List.Forall₂ (fun item c => c.StandsFor item) items [half]) ∧
    ∃ e, BoundaryCondition.ofJson empty = .error e := by
  intro phase twist half unreduced empty
  have hphase : PhaseInWords phase := ⟨by decide, by decide⟩
  have hhalf : BoundaryCondition.ofJson unreduced = .ok half := by
    rw [BoundaryCondition.ofJson_eq_ok, phaseOfJson_eq_ok]
    refine ⟨6, -4, .tagged (.values (.inr rfl)), by decide, by decide, by decide, ?_, ?_⟩
    · norm_num [half]
    · exact ⟨by decide +kernel, by decide +kernel⟩
  obtain ⟨hsite, hlattice, hphases, htwist, hconditions, hconfig, haccepted, hlists, hzero⟩ :=
    records_restored
  refine ⟨hsite _ ⟨by decide, by decide⟩, hlattice _ ⟨by decide, by decide⟩, hphases _ hphase,
    htwist _ hphase, hconditions _ ?_, hconfig _ ⟨by decide, by decide, by decide⟩,
    haccepted _ _ hhalf, (hlists _ ⟨[half]⟩ ?_).1, (hzero _ 6 0 ?_ (.inr rfl)).1⟩
  · exact List.forall_mem_cons.mpr ⟨hphase, List.forall_mem_singleton.mpr ⟨by decide, by decide⟩⟩
  · exact BoundaryConditions.ofJson_eq_ok.mpr ⟨_, rfl, .cons hhalf .nil⟩
  · exact .tagged (.values (.inl rfl))

end LatticeObservables
