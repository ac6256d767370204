import Mathlib.Algebra.Order.BigOperators.Group.List
import Mathlib.Analysis.SpecialFunctions.Trigonometric.Basic
import QubitScript.Proofs.Quantum.Permuting
import QubitScript.Proofs.Quantum.Run

/-!
# The weight of a state

The weight of a state is the sum of the squared magnitudes of its amplitudes. Every basis state is
in exactly one block, and a unitary matrix keeps the weight of a block, so that it keeps the weight
of the whole state, on any targets. A new qubit adds amplitudes that are zero. What gates make of
the empty register has therefore the weight one, and the probabilities of its qubits are
probabilities.
-/

namespace QubitScript

namespace Register

open Matrix

variable {R : Type} [CommRing R] [GateConstants R]

/-- The sum of the squared magnitudes of the amplitudes. -/
def weight (amplitudes : Array (Complex R)) : R := (amplitudes.toList.map Complex.normSq).sum

theorem weight_eq_sum (amplitudes : Array (Complex R)) :
    weight amplitudes =
      ∑ index ∈ Finset.range amplitudes.size, (amplitudes.getD index 0).normSq := by
  have hlist : amplitudes.toList =
      (List.range amplitudes.size).map fun index => amplitudes.getD index 0 := by
    refine List.ext_getElem (by simp) fun index hindex _ => ?_
    have hlt : index < amplitudes.size := by simpa using hindex
    simp [Array.getD_eq_getD_getElem?, Array.getElem?_eq_getElem hlt]
  rw [weight, hlist, List.map_map]
  rfl

/-! ## One block -/

/-- The weight of a vector is its product with its conjugate. -/
theorem sum_normSq {n : Nat} (vector : Fin n → Complex R) :
    ∑ row, (vector row).normSq = Complex.reHom (star vector ⬝ᵥ vector) := by
  rw [dotProduct, map_sum]
  exact Finset.sum_congr rfl fun row _ => Complex.normSq_eq (vector row)

theorem sum_normSq_mulVec {n : Nat} {matrix : Matrix (Fin n) (Fin n) (Complex R)}
    (hmatrix : matrix ∈ unitaryGroup (Fin n) (Complex R)) (vector : Fin n → Complex R) :
    ∑ row, ((matrix *ᵥ vector) row).normSq = ∑ row, (vector row).normSq := by
  have hinverse : matrixᴴ * matrix = 1 := mem_unitaryGroup_iff'.mp hmatrix
  rw [sum_normSq, sum_normSq, star_mulVec, dotProduct_mulVec, vecMul_vecMul, hinverse, vecMul_one]

/-! ## All blocks -/

section Blocks

variable {targets : List Nat} {qubits : Nat}

/-- The bases of all blocks. -/
def blockBases (targets : List Nat) (qubits : Nat) : Finset Nat :=
  (Finset.range (2 ^ qubits)).filter fun base => ∀ target ∈ targets, base.testBit target = false

/-- The basis states are the members of the blocks. -/
theorem sum_blocks {M : Type} [AddCommMonoid M] (hdistinct : targets.Nodup)
    (htargets : ∀ target ∈ targets, target < qubits) (f : Nat → M) :
    ∑ index ∈ Finset.range (2 ^ qubits), f index =
      ∑ base ∈ blockBases targets qubits, ∑ row : Fin (2 ^ targets.length),
        f (blockIndex targets base row) := by
  -- A number is told by its block and its row there.
  have hself : ∀ index,
      blockIndex targets (blockBase targets index) (readBits targets index) = index := by
    intro index
    rw [blockIndex_blockBase hdistinct, replaceBits_readBits hdistinct]
  rw [← Finset.sum_product']
  refine Finset.sum_nbij'
    (fun index => (blockBase targets index, ⟨readBits targets index, readBits_lt⟩))
    (fun member => blockIndex targets member.1 member.2) ?_ ?_ ?_ ?_ ?_
  · intro index hindex
    refine Finset.mem_product.mpr ⟨Finset.mem_filter.mpr ⟨?_, testBit_blockBase hdistinct⟩,
      Finset.mem_univ _⟩
    exact Finset.mem_range.mpr (replaceBits_lt htargets (Finset.mem_range.mp hindex))
  · intro member hmember
    obtain ⟨hbase, -⟩ := Finset.mem_filter.mp (Finset.mem_product.mp hmember).1
    exact Finset.mem_range.mpr (blockIndex_lt htargets (Finset.mem_range.mp hbase))
  · exact fun index _ => hself index
  · rintro ⟨base, row⟩ hmember
    obtain ⟨-, hclear⟩ := Finset.mem_filter.mp (Finset.mem_product.mp hmember).1
    refine Prod.ext (blockBase_blockIndex hdistinct hclear) (Fin.ext ?_)
    exact readBits_blockIndex hdistinct hclear row.isLt
  · intro index _
    exact congrArg f (hself index).symm

variable {matrix : List (Complex R)} {amplitudes : Array (Complex R)}

/-- A unitary matrix keeps the weight of a state, whatever qubits it acts on. -/
theorem weight_applyMatrix (hdistinct : targets.Nodup)
    (htargets : ∀ target ∈ targets, target < qubits) (hsize : amplitudes.size = 2 ^ qubits)
    (hmatrix : square matrix targets.length ∈ unitaryGroup _ (Complex R)) :
    weight (applyMatrix matrix targets amplitudes) = weight amplitudes := by
  -- In every block the matrix acts on a vector of its own.
  have hentry : ∀ base ∈ blockBases targets qubits, ∀ row : Fin (2 ^ targets.length),
      (applyMatrix matrix targets amplitudes).getD (blockIndex targets base row) 0 =
        (square matrix targets.length *ᵥ blockOf targets amplitudes base) row := by
    intro base hbase row
    obtain ⟨hlt, hclear⟩ := Finset.mem_filter.mp hbase
    have hindex : blockIndex targets base row < 2 ^ qubits :=
      blockIndex_lt htargets (Finset.mem_range.mp hlt)
    rw [Array.getD_eq_getD_getElem?, getElem?_applyMatrix hdistinct htargets hsize hindex,
      Option.getD_some, tensorEntry_eq_mulVec hdistinct, blockBase_blockIndex hdistinct hclear]
    congr 1
    exact Fin.ext (readBits_blockIndex hdistinct hclear row.isLt)
  calc
    weight (applyMatrix matrix targets amplitudes) =
        ∑ index ∈ Finset.range (2 ^ qubits),
          ((applyMatrix matrix targets amplitudes).getD index 0).normSq := by
      rw [weight_eq_sum, size_applyMatrix, hsize]
    _ = ∑ base ∈ blockBases targets qubits, ∑ row : Fin (2 ^ targets.length),
          ((square matrix targets.length *ᵥ blockOf targets amplitudes base) row).normSq := by
      rw [sum_blocks hdistinct htargets]
      refine Finset.sum_congr rfl fun base hbase => Finset.sum_congr rfl fun row _ => ?_
      rw [hentry base hbase]
    _ = ∑ base ∈ blockBases targets qubits, ∑ row : Fin (2 ^ targets.length),
          (blockOf targets amplitudes base row).normSq :=
      Finset.sum_congr rfl fun _ _ => sum_normSq_mulVec hmatrix _
    _ = weight amplitudes := by
      rw [weight_eq_sum, hsize, sum_blocks hdistinct htargets]
      rfl

end Blocks

/-! ## The matrices of gates -/

theorem permutation_mem_unitaryGroup {images : List Nat} {qubits : Nat}
    (hlength : images.length = 2 ^ qubits) (hdistinct : images.Nodup)
    (himages : ∀ image ∈ images, image < 2 ^ qubits) :
    square (Gate.permutation images : List (Complex R)) qubits ∈ unitaryGroup _ (Complex R) := by
  have hlt : ∀ column : Fin (2 ^ qubits), column.val < images.length := fun column =>
    column.isLt.trans_eq hlength.symm
  let image : Fin (2 ^ qubits) → Fin (2 ^ qubits) := fun column =>
    ⟨images.get ⟨column, hlt column⟩, himages _ (List.get_mem _ _)⟩
  have hentry : ∀ row column,
      square (Gate.permutation images : List (Complex R)) qubits row column =
      if row = image column then 1 else 0 := by
    intro row column
    rw [square_permutation hlength, List.getElem?_eq_getElem (hlt column)]
    simp only [Option.some.injEq, image, Fin.ext_iff, List.get_eq_getElem, eq_comm]
  have hinjective : Function.Injective image := by
    intro first second h
    have hsame : images.get ⟨first, hlt first⟩ = images.get ⟨second, hlt second⟩ := Fin.mk.inj h
    exact Fin.ext (Fin.mk.inj (hdistinct.injective_get hsame))
  refine mem_unitaryGroup_iff'.mpr (Matrix.ext fun first second => ?_)
  rw [mul_apply]
  simp only [star_apply, hentry, apply_ite star, star_one, star_zero, ite_mul, one_mul, zero_mul,
    Finset.sum_ite_eq', Finset.mem_univ, if_true, one_apply, hinjective.eq_iff]

omit [GateConstants R] in
theorem phase_mem_unitaryGroup {qubits : Nat} {factor : Complex R}
    (hfactor : star factor * factor = 1) : phase qubits factor ∈ unitaryGroup _ (Complex R) := by
  rw [mem_unitaryGroup_iff', phase, star_eq_conjTranspose, diagonal_conjTranspose,
    diagonal_mul_diagonal, ← diagonal_one]
  congr 1
  funext row
  by_cases hrow : row.val + 1 = 2 ^ qubits <;> simp [hrow, hfactor]

omit [GateConstants R] in
/-- A matrix of one qubit is unitary if its two columns are orthonormal. -/
theorem square_mem_unitaryGroup_of_columns {a b c d : Complex R}
    (hfirst : star a * a + star c * c = 1) (hsecond : star b * b + star d * d = 1)
    (hcross : star a * b + star c * d = 0) :
    square [a, b, c, d] 1 ∈ unitaryGroup _ (Complex R) := by
  have hcross' : star b * a + star d * c = 0 := by
    have h := congrArg star hcross
    simpa only [star_add, star_mul, star_star, star_zero] using h
  refine mem_unitaryGroup_iff'.mpr (Matrix.ext fun row column => ?_)
  have hsum : (star (square [a, b, c, d] 1) * square [a, b, c, d] 1) row column =
      star (square [a, b, c, d] 1 0 row) * square [a, b, c, d] 1 0 column +
        star (square [a, b, c, d] 1 1 row) * square [a, b, c, d] 1 1 column := by
    rw [mul_apply]
    exact Fin.sum_univ_two _
  rw [hsum]
  fin_cases row <;> fin_cases column
  · exact hfirst
  · exact hcross
  · exact hcross'
  · exact hsecond

/-! ## New qubits -/

theorem weight_addQubit (register : Register R) (name : String) :
    weight (register.addQubit name).amplitudes = weight register.amplitudes := by
  have hzero : (Complex.zero : Complex R).normSq = 0 := by
    show (0 : R) * 0 + 0 * 0 = 0
    ring
  simp only [weight, addQubit, Array.toList_append, Array.toList_replicate, List.map_append,
    List.sum_append, List.map_replicate, hzero]
  simp

theorem weight_addQubits (register : Register R) (qubits : List String) :
    weight (register.addQubits qubits).amplitudes = weight register.amplitudes := by
  refine List.foldlRecOn (motive := fun after : Register R =>
    weight after.amplitudes = weight register.amplitudes) _ _ rfl ?_
  intro after hafter name _
  split
  · exact hafter
  · rw [weight_addQubit, hafter]

section Constants

variable (hsqrt : 2 * (GateConstants.invSqrtTwo : R) ^ 2 = 1)
  (hpolar : (GateConstants.cosEighth : R) ^ 2 + GateConstants.sinEighth ^ 2 = 1)

theorem star_mul_unit : star (Complex.unit : Complex R) * .unit = 1 := by
  ext
  · show (0 : R) * 0 + -(-1 * 1) = 1
    ring
  · show (0 : R) * 1 + -1 * 0 = 0
    ring

include hpolar in
theorem star_mul_eighth : star (⟨Scalar.cosEighth, Scalar.sinEighth⟩ : Complex R) *
    ⟨Scalar.cosEighth, Scalar.sinEighth⟩ = 1 := by
  ext
  · show (GateConstants.cosEighth : R) * GateConstants.cosEighth +
      -(-GateConstants.sinEighth * GateConstants.sinEighth) = 1
    rw [← hpolar]
    ring
  · show (GateConstants.cosEighth : R) * GateConstants.sinEighth +
      -GateConstants.sinEighth * GateConstants.cosEighth = 0
    ring

include hsqrt in
theorem star_mul_invSqrtTwo :
    star (Complex.ofReal (Scalar.invSqrtTwo : R)) * .ofReal Scalar.invSqrtTwo +
      star (Complex.ofReal (Scalar.invSqrtTwo : R)) * .ofReal Scalar.invSqrtTwo = 1 := by
  ext
  · show (GateConstants.invSqrtTwo : R) * GateConstants.invSqrtTwo + -(-0 * 0) +
      (GateConstants.invSqrtTwo * GateConstants.invSqrtTwo + -(-0 * 0)) = 1
    rw [← hsqrt]
    ring
  · show (GateConstants.invSqrtTwo : R) * 0 + -0 * GateConstants.invSqrtTwo +
      (GateConstants.invSqrtTwo * 0 + -0 * GateConstants.invSqrtTwo) = 0
    ring

include hpolar in
/-- The factors of phases have the magnitude one. -/
theorem star_mul_phaseFactor {gate : Gate} {factor : Complex R}
    (h : phaseFactor? gate = some factor) : star factor * factor = 1 := by
  cases gate <;> cases h
  · simp
  · exact star_mul_unit
  · exact star_mul_eighth hpolar
  · simp

include hsqrt hpolar in
/-- The matrix of every gate is unitary. -/
theorem square_mem_unitaryGroup {gate : Gate} {matrix : List (Complex R)}
    (h : gate.matrix? = some matrix) : square matrix gate.arity ∈ unitaryGroup _ (Complex R) := by
  have hphase : ∀ factor : Complex R, phaseFactor? gate = some factor →
      square matrix gate.arity ∈ unitaryGroup _ (Complex R) := by
    intro factor hfactor
    rw [square_of_phaseFactor? gate hfactor h]
    exact phase_mem_unitaryGroup (star_mul_phaseFactor hpolar hfactor)
  cases gate with
  | z => exact hphase _ rfl
  | p => exact hphase _ rfl
  | t => exact hphase _ rfl
  | cz => exact hphase _ rfl
  | x =>
      cases h
      show square (Gate.permutation [1, 0]) 1 ∈ unitaryGroup _ (Complex R)
      exact permutation_mem_unitaryGroup rfl (by decide) (by decide)
  | cnot =>
      cases h
      exact permutation_mem_unitaryGroup rfl (by decide) (by decide)
  | swap =>
      cases h
      exact permutation_mem_unitaryGroup rfl (by decide) (by decide)
  | toffoli =>
      cases h
      exact permutation_mem_unitaryGroup rfl (by decide) (by decide)
  | entangle => cases h
  | h =>
      cases h
      have hhalves := star_mul_invSqrtTwo (R := R) hsqrt
      refine square_mem_unitaryGroup_of_columns hhalves ?_ ?_
      · rw [Complex.neg_eq, star_neg, neg_mul_neg]
        exact hhalves
      · rw [Complex.neg_eq, mul_neg, add_neg_cancel]
  | y =>
      cases h
      rw [Complex.neg_eq, Complex.zero_eq]
      refine square_mem_unitaryGroup_of_columns ?_ ?_ ?_
      · rw [mul_zero, zero_add, star_mul_unit]
      · rw [mul_zero, add_zero, star_neg, neg_mul_neg, star_mul_unit]
      · rw [star_zero, zero_mul, zero_add, mul_zero]

/-! ## Runs -/

section Transforming

variable {gate : Gate} {targets : List Nat} {qubits : Nat} {amplitudes : Array (Complex R)}
  (harity : targets.length = gate.arity) (hdistinct : targets.Nodup)
  (htargets : ∀ target ∈ targets, target < qubits) (hsize : amplitudes.size = 2 ^ qubits)

include hsqrt hpolar harity hdistinct htargets hsize

theorem weight_applyOwnMatrix :
    weight (applyOwnMatrix gate targets amplitudes) = weight amplitudes := by
  unfold applyOwnMatrix
  split
  next matrix hmatrix =>
      refine weight_applyMatrix hdistinct htargets hsize ?_
      rw [harity]
      exact square_mem_unitaryGroup hsqrt hpolar hmatrix
  next => rfl

theorem weight_transform : weight (transform gate targets amplitudes) = weight amplitudes := by
  cases gate with
  | entangle =>
      obtain ⟨first, second, rfl⟩ := List.length_eq_two.mp harity
      have hfirst : ∀ target ∈ [first], target < qubits :=
        List.forall_mem_singleton.mpr (htargets first (.head _))
      have hadamard : [first].length = Gate.h.arity := rfl
      have hhalf := (applyOwnMatrixChecked_eq hadamard hfirst hsize).2
      show weight (applyOwnMatrix .cnot [first, second] (applyOwnMatrix .h [first] amplitudes)) = _
      rw [weight_applyOwnMatrix hsqrt hpolar rfl hdistinct htargets hhalf,
        weight_applyOwnMatrix hsqrt hpolar rfl (List.nodup_singleton first) hfirst hsize]
  | _ => exact weight_applyOwnMatrix hsqrt hpolar harity hdistinct htargets hsize

end Transforming

include hsqrt hpolar

/-- Applying a gate to names keeps the weight, also where some of the qubits are new. -/
theorem weight_applied {register : Register R} (hregister : register.WellFormed) {gate : Gate}
    {qubits : List String} (hadmits : register.Admits gate qubits) :
    weight (register.applied gate qubits).amplitudes = weight register.amplitudes := by
  rw [← weight_addQubits register qubits]
  exact weight_transform hsqrt hpolar ((length_targets hadmits.distinct).trans hadmits.arity)
    (nodup_targets hadmits.distinct) (fun _ => target_lt) (size_addQubits hregister.size)

theorem weight_attempt {register : Register R} (hregister : register.WellFormed)
    (call : Instruction) :
    weight (register.attempt call).amplitudes = weight register.amplitudes := by
  unfold attempt
  split
  next after hafter =>
      obtain ⟨hadmits, rfl⟩ := apply_eq_ok.mp hafter
      exact weight_applied hsqrt hpolar hregister hadmits
  next => rfl

theorem weight_afterCalls (calls : List Instruction) :
    weight (afterCalls calls : Register R).amplitudes = 1 := by
  have hempty : weight (empty : Register R).amplitudes = 1 := by
    show (1 * 1 + 0 * 0 : R) + 0 = 1
    ring
  have hrun : (afterCalls calls : Register R).WellFormed ∧
      weight (afterCalls calls : Register R).amplitudes = 1 := by
    refine List.foldlRecOn (motive := fun after : Register R =>
      after.WellFormed ∧ weight after.amplitudes = 1) _ _ ⟨wellFormed_empty, hempty⟩ ?_
    intro after hafter call _
    exact ⟨hafter.1.attempt call, (weight_attempt hsqrt hpolar hafter.1 call).trans hafter.2⟩
  exact hrun.2

end Constants

/-! ## Probabilities -/

section Probabilities

variable [LinearOrder R] [IsStrictOrderedRing R]

theorem normSq_nonneg (z : Complex R) : 0 ≤ z.normSq :=
  add_nonneg (mul_self_nonneg z.re) (mul_self_nonneg z.im)

/-- The probability of a one is the weight of some of the amplitudes. -/
theorem probabilityOfOne?_le_weight {register : Register R} {name : String} {probability : R}
    (h : register.probabilityOfOne? name = some probability) :
    0 ≤ probability ∧ probability ≤ weight register.amplitudes := by
  obtain ⟨bit, -, rfl⟩ := Option.map_eq_some_iff.mp h
  let ones := register.amplitudes.toList.zipIdx.filter fun one => one.2.testBit bit
  have hsum : ones.foldl (fun sum one => Scalar.add sum one.1.normSq) Scalar.zero =
      (ones.map fun one => one.1.normSq).sum := by
    rw [List.sum_eq_foldl, List.foldl_map]
    rfl
  have hnonneg : ∀ squares : List (Complex R × Nat),
      ∀ square ∈ squares.map fun one => one.1.normSq, 0 ≤ square :=
    fun _ => List.forall_mem_map.mpr fun one _ => normSq_nonneg one.1
  have hsome : (ones.map fun one => one.1.normSq).Sublist
      (register.amplitudes.toList.zipIdx.map fun one => one.1.normSq) :=
    List.filter_sublist.map _
  have hall : (register.amplitudes.toList.zipIdx.map fun one => one.1.normSq).sum =
      weight register.amplitudes := by
    have hfirst : register.amplitudes.toList.zipIdx.map Prod.fst = register.amplitudes.toList :=
      List.zipIdx_map_fst 0 _
    conv => rhs; rw [weight, ← hfirst, List.map_map]
    rfl
  rw [hsum, ← hall]
  exact ⟨List.sum_nonneg (hnonneg ones), hsome.sum_le_sum (hnonneg _)⟩

end Probabilities

/-- Let the amplitudes be exact complex numbers, with constants for the gates whose magnitudes are
right. A unitary matrix keeps the weight of a state on any distinct qubits. After any calls on a
fresh register, whether they succeed or fail, the weight is one, and every qubit of the register has
a probability between zero and one. -/
theorem weight_one_and_probabilities [GateConstants ℝ]
    (hsqrt : (GateConstants.invSqrtTwo : ℝ) ^ 2 = 1 / 2)
    (hpolar : (GateConstants.cosEighth : ℝ) ^ 2 + GateConstants.sinEighth ^ 2 = 1) :
    (∀ (qubits : Nat) (amplitudes : Array (Complex ℝ)) (targets : List Nat)
      (matrix : List (Complex ℝ)), amplitudes.size = 2 ^ qubits → targets.Nodup →
      (∀ target ∈ targets, target < qubits) →
      square matrix targets.length ∈ unitaryGroup (Fin (2 ^ targets.length)) (Complex ℝ) →
      weight (applyMatrix matrix targets amplitudes) = weight amplitudes) ∧
    ∀ calls : List Instruction, let register : Register ℝ := afterCalls calls
      weight register.amplitudes = 1 ∧
      ∀ name ∈ register.names, ∃ probability,
        register.probabilityOfOne? name = some probability ∧ 0 ≤ probability ∧ probability ≤ 1 := by
  have hdouble : 2 * (GateConstants.invSqrtTwo : ℝ) ^ 2 = 1 := by
    rw [hsqrt]
    norm_num
  refine ⟨fun qubits amplitudes targets matrix hsize hdistinct htargets hmatrix =>
    weight_applyMatrix hdistinct htargets hsize hmatrix, fun calls => ?_⟩
  intro register
  have hweight : weight register.amplitudes = 1 := weight_afterCalls hdouble hpolar calls
  refine ⟨hweight, fun name hname => ?_⟩
  have hsome : (register.probabilityOfOne? name).isSome := by
    rw [probabilityOfOne?, Option.isSome_map]
    exact isSome_indexOf?.mpr hname
  obtain ⟨probability, hprobability⟩ := Option.isSome_iff_exists.mp hsome
  have hbounds := probabilityOfOne?_le_weight hprobability
  rw [hweight] at hbounds
  exact ⟨probability, hprobability, hbounds⟩

/-- The constants that the gates mean. -/
@[reducible]
noncomputable def gateConstants : GateConstants ℝ :=
  ⟨(Real.sqrt 2)⁻¹, Real.cos (Real.pi / 4), Real.sin (Real.pi / 4)⟩

/-- After a pair has been entangled and one of its qubits has been given a phase, the weight is one,
and both qubits have a probability. -/
theorem weight_of_entangled_pair :
    letI := gateConstants
    let register : Register ℝ := afterCalls [⟨.entangle, ["a", "b"]⟩, ⟨.h, []⟩, ⟨.t, ["b"]⟩]
    gateConstants.invSqrtTwo ^ 2 = 1 / 2 ∧
      gateConstants.cosEighth ^ 2 + gateConstants.sinEighth ^ 2 = 1 ∧
      weight (applyMatrix (Gate.permutation [1, 0]) [0] #[.one, .unit] : Array (Complex ℝ)) =
        weight (#[.one, .unit] : Array (Complex ℝ)) ∧
      weight register.amplitudes = 1 ∧
      register.names = ["a", "b"] ∧
      (∃ first, register.probabilityOfOne? "a" = some first ∧ 0 ≤ first ∧ first ≤ 1) ∧
      ∃ second, register.probabilityOfOne? "b" = some second ∧ 0 ≤ second ∧ second ≤ 1 := by
  let := gateConstants
  have hsqrt : (GateConstants.invSqrtTwo : ℝ) ^ 2 = 1 / 2 := by
    show (Real.sqrt 2)⁻¹ ^ 2 = 1 / 2
    rw [inv_pow, Real.sq_sqrt (by norm_num), one_div]
  have hpolar : (GateConstants.cosEighth : ℝ) ^ 2 + GateConstants.sinEighth ^ 2 = 1 :=
    Real.cos_sq_add_sin_sq _
  have hweights := weight_one_and_probabilities hsqrt hpolar
  intro register
  have hnames : register.names = ["a", "b"] := rfl
  have hpermuted := hweights.1 1 #[.one, .unit] [0] (Gate.permutation [1, 0]) rfl
    (List.nodup_singleton 0) (by simp) (permutation_mem_unitaryGroup rfl (by decide) (by decide))
  obtain ⟨hweight, hprobabilities⟩ :=
    hweights.2 [⟨.entangle, ["a", "b"]⟩, ⟨.h, []⟩, ⟨.t, ["b"]⟩]
  exact ⟨hsqrt, hpolar, hpermuted, hweight, hnames,
    hprobabilities "a" (hnames ▸ .head _), hprobabilities "b" (hnames ▸ .tail _ (.head _))⟩

end Register

end QubitScript
