import Lra.Buffer.Access
import Mathlib.Algebra.Order.Ring.Nat

/-!
# The spectrum of a recording

`getFFTFreqMag` removes the mean of a vector, or of a window of it, and computes the
magnitudes of its frequencies in work buffers. Every access by index is checked. The
transform itself is a parameter; it fills as many bins as it is given.
-/

namespace Lra

namespace FftLib

open Buffer

/-- The exceptions of the standard library. -/
inductive FftError where
  | outOfRange
  | lengthError
  deriving DecidableEq, Repr

/-- The conversion of a size to `int`. -/
def toInt (n : Nat) : Int := (n : Int).bmod 4294967296

/-- `fftw_complex`. -/
abbrev FftwComplex := Float × Float

namespace Detail

/-- `data[i] -= static_cast<float>(mean)`. -/
def subtract (mean : Float) (data : List Float32) (i : Nat) : Checked (List Float32) := do
  let x ← get data i
  put data i (x - mean.toFloat32)

/-- `removeMean` of a window: the vector afterwards, or the exception. The test adds in 32
bits, the iterators do not. -/
def removeMeanWindow (data : List Float32) (begin len : UInt32) :
    Checked (List Float32 × Except FftError Unit) :=
  if data.isEmpty then return (data, .ok ())
  else if (begin + len).toNat > data.length then return (data, .error .outOfRange)
  else do
    let window ← block data begin.toNat len.toNat
    let sum := window.foldl (fun sum x => sum + x.toFloat) 0.0
    let mean := sum / Float.ofNat len.toNat
    let indices := List.range' begin.toNat ((begin + len).toNat - begin.toNat)
    let data ← indices.foldlM (subtract mean) data
    return (data, .ok ())

/-- `removeMean` of the whole vector, which visits its elements one by one. -/
def removeMean (data : List Float32) : List Float32 :=
  if data.isEmpty then data
  else
    let sum := data.foldl (fun sum x => sum + x.toFloat) 0.0
    let mean := sum / Float.ofNat data.length
    data.map (· - mean.toFloat32)

/-- `fftw_malloc` for `n` bins; none for a negative number, which no memory is large enough
for. -/
def fftwMalloc (n : Int) : List FftwComplex := List.replicate n.toNat (0, 0)

/-- `in[i][0] = input_data[i]`, where the input begins at `begin`. -/
def load (data : List Float32) (begin : Nat) (bins : List FftwComplex) (i : Nat) :
    Checked (List FftwComplex) := do
  let x ← get data (begin + i)
  put bins i (x.toFloat, 0)

/-- Frequency and magnitude of bin `i`. -/
def freqMag (n : Int) (samplingRate : Float32) (out : List FftwComplex)
    (freqMagnitude : List (Float32 × Float32)) (i : Nat) :
    Checked (List (Float32 × Float32)) := do
  let (re, im) ← get out i
  let scaler : Float32 := if i = 0 then 1.0 else 2.0
  let magnitude := scaler.toFloat * (re * re + im * im).sqrt / Float.ofInt n
  let frequency := Float32.ofNat i * samplingRate / Float32.ofInt n
  put freqMagnitude i (frequency, magnitude.toFloat32)

/-- `getFFTFreqMag` of the `size` elements from `begin` on. -/
def getFFTFreqMag (fft : List FftwComplex → List FftwComplex) (data : List Float32)
    (begin size : Nat) (samplingRate : Float32) :
    Checked (Except FftError (List (Float32 × Float32))) := do
  let n := toInt size
  let bins ← (List.range n.toNat).foldlM (load data begin) (fftwMalloc n)
  let out := fft bins
  if n.tdiv 2 + 1 < 0 then return .error .lengthError
  let count := (n.tdiv 2 + 1).toNat
  let freqMagnitude ←
    (List.range count).foldlM (freqMag n samplingRate out) (List.replicate count (0, 0))
  return .ok freqMagnitude

end Detail

/-- Of the whole vector: the vector afterwards, and the magnitudes or an exception. -/
def getFFTFreqMag (fft : List FftwComplex → List FftwComplex) (data : List Float32)
    (samplingRate : Float32) :
    Checked (List Float32 × Except FftError (List (Float32 × Float32))) := do
  let data := Detail.removeMean data
  let freqMagnitude ← Detail.getFFTFreqMag fft data 0 data.length samplingRate
  return (data, freqMagnitude)

/-- Of a window of the vector. -/
def getFFTFreqMagWindow (fft : List FftwComplex → List FftwComplex) (data : List Float32)
    (samplingRate : Float32) (begin len : UInt32) :
    Checked (List Float32 × Except FftError (List (Float32 × Float32))) := do
  let (data, removed) ← Detail.removeMeanWindow data begin len
  match removed with
  | .error e => return (data, .error e)
  | .ok () =>
    let freqMagnitude ← Detail.getFFTFreqMag fft data begin.toNat len.toNat samplingRate
    return (data, freqMagnitude)

/-! ### Which accesses exist -/

/-- There are as many bins as the loop over them visits. -/
theorem bins_iff (n : Int) :
    (∀ i ∈ List.range (n.tdiv 2 + 1).toNat, i < n.toNat) ↔ n ≠ 0 ∧ n ≠ -1 := by
  constructor
  · intro h
    refine ⟨?_, ?_⟩
    · rintro rfl
      exact absurd (h 0 (by decide)) (by decide)
    · rintro rfl
      exact absurd (h 0 (by decide)) (by decide)
  · intro ⟨h0, h1⟩ i hi
    rw [List.mem_range, Int.tdiv_eq_ediv] at hi
    split at hi
    · omega
    · rw [show Int.sign 2 = 1 from rfl] at hi
      omega

namespace Detail

section Spectrum

variable {fft : List FftwComplex → List FftwComplex} {data : List Float32}
  {samplingRate : Float32} {begin : Nat} {n : Int}

/-- The loop that loads the input. -/
theorem inBounds_loads : InBounds ((List.range n.toNat).foldlM (load data begin) (fftwMalloc n)) ↔
    ∀ i < n.toNat, begin + i < data.length := by
  have allocated : (fftwMalloc n).length = n.toNat := List.length_replicate
  rw [inBounds_foldlM_length (g := load data begin)
    (P := fun bins i => begin + i < data.length ∧ i < bins)
    (fun _ _ _ => length_get_put) fun _ _ => inBounds_get_put, allocated]
  simp only [List.mem_range]
  exact forall₂_congr fun i hi => and_iff_left hi

theorem length_loads {bins : List FftwComplex}
    (h : (List.range n.toNat).foldlM (load data begin) (fftwMalloc n) = .ok bins) :
    bins.length = n.toNat :=
  (length_foldlM (fun _ _ _ => length_get_put) h).trans List.length_replicate

/-- The loop over the bins. -/
theorem inBounds_freqMags {out : List FftwComplex} (filled : out.length = n.toNat) :
    InBounds ((List.range (n.tdiv 2 + 1).toNat).foldlM (freqMag n samplingRate out)
      (List.replicate (n.tdiv 2 + 1).toNat (0, 0))) ↔ n ≠ 0 ∧ n ≠ -1 := by
  rw [inBounds_foldlM_length (g := freqMag n samplingRate out)
    (P := fun count i => i < out.length ∧ i < count)
    (fun _ _ _ => length_get_put) fun _ _ => inBounds_get_put, List.length_replicate, filled,
    ← bins_iff]
  exact forall₂_congr fun i hi => and_iff_left (List.mem_range.1 hi)

theorem inBounds_getFFTFreqMag (fills : ∀ bins, (fft bins).length = bins.length)
    (begin size : Nat) :
    InBounds (getFFTFreqMag fft data begin size samplingRate) ↔
      (∀ i < (toInt size).toNat, begin + i < data.length) ∧ toInt size ≠ 0 ∧ toInt size ≠ -1 := by
  unfold getFFTFreqMag
  generalize toInt size = n
  rw [← inBounds_loads (n := n), inBounds_bind]
  constructor
  · intro ⟨bins, loaded, rest⟩
    refine ⟨⟨bins, loaded⟩, ?_⟩
    have filled : (fft bins).length = n.toNat := (fills bins).trans (length_loads loaded)
    dsimp only at rest
    split at rest
    · next negative =>
      constructor
      · rintro rfl
        exact absurd negative (by decide)
      · rintro rfl
        exact absurd negative (by decide)
    · exact (inBounds_freqMags filled).1 (inBounds_bind_pure.1 rest)
  · intro ⟨⟨bins, loaded⟩, exist⟩
    refine ⟨bins, loaded, ?_⟩
    have filled : (fft bins).length = n.toNat := (fills bins).trans (length_loads loaded)
    dsimp only
    split
    · exact inBounds_pure _
    · exact inBounds_bind_pure.2 ((inBounds_freqMags filled).2 exist)

end Spectrum

section Mean

variable {data data' : List Float32} {begin len : UInt32} {r : Except FftError Unit}

theorem inBounds_window : InBounds (block data begin.toNat len.toNat) ↔
    len = 0 ∨ begin.toNat + len.toNat ≤ data.length := by
  cases hn : len.toNat with
  | zero => exact iff_of_true (inBounds_ok []) (.inl (UInt32.toNat_inj.1 hn))
  | succ n =>
    have nonzero : len ≠ 0 := by
      rintro rfl
      cases hn
    rw [inBounds_block, or_iff_right nonzero]

/-- The loop that subtracts the mean ends where the test does. -/
theorem inBounds_subtracts (le : (begin + len).toNat ≤ data.length) (mean : Float) :
    InBounds ((List.range' begin.toNat ((begin + len).toNat - begin.toNat)).foldlM
      (subtract mean) data) := by
  rw [inBounds_foldlM_length (g := subtract mean) (P := fun size i => i < size ∧ i < size)
    (fun _ _ _ => length_get_put) fun _ _ => inBounds_get_put]
  intro i hi
  rw [List.mem_range'_1] at hi
  omega

theorem inBounds_removeMeanWindow (nonempty : data ≠ [])
    (le : (begin + len).toNat ≤ data.length) :
    InBounds (removeMeanWindow data begin len) ↔
      len = 0 ∨ begin.toNat + len.toNat ≤ data.length := by
  rw [removeMeanWindow, if_neg (by simpa using nonempty), if_neg (Nat.not_lt.2 le),
    ← inBounds_window]
  constructor
  · intro h
    obtain ⟨window, read, _⟩ := inBounds_bind.1 h
    exact ⟨window, read⟩
  · intro h
    exact h.bind fun window => inBounds_bind_pure.2 (inBounds_subtracts le _)

/-- Removing the mean keeps the size. -/
theorem removeMeanWindow_ok (le : data = [] ∨ (begin + len).toNat ≤ data.length)
    (h : removeMeanWindow data begin len = .ok (data', r)) :
    data'.length = data.length ∧ r = .ok () := by
  unfold removeMeanWindow at h
  split at h
  · cases h
    exact ⟨rfl, rfl⟩
  · next nonempty =>
    have le := le.resolve_left fun empty => nonempty (by simp [empty])
    rw [if_neg (Nat.not_lt.2 le)] at h
    obtain ⟨window, _, h⟩ := bind_eq_ok.1 h
    obtain ⟨data'', ran, h⟩ := bind_eq_ok.1 h
    cases h
    exact ⟨length_foldlM (fun _ _ _ => length_get_put) ran, rfl⟩

end Mean

end Detail

/-! ### When nothing else is touched -/

/-- The value of a conversion is one of two numbers with the same remainder. -/
theorem toInt_cases (n : Nat) :
    n % 4294967296 < 2147483648 ∧ toInt n = (n % 4294967296 : Nat) ∨
      2147483648 ≤ n % 4294967296 ∧ toInt n = (n % 4294967296 : Nat) - 4294967296 := by
  unfold toInt
  rw [Int.bmod_def]
  split <;> omega

theorem inside_iff (begin n size : Nat) :
    (∀ i < n, begin + i < size) ↔ n = 0 ∨ begin + n ≤ size := by
  constructor
  · intro inside
    by_cases empty : n = 0
    · exact .inl empty
    · have last := inside (n - 1) (by omega)
      omega
  · intro fits i hi
    omega

/-- The test of the window fails, or the window exists and is neither empty nor as long as 32
bits allow. An empty vector is not tested; then the length, taken as `int`, is below -1. -/
def WindowFits (size : Nat) (begin len : UInt32) : Prop :=
  size ≠ 0 ∧ size < (begin + len).toNat ∨
    size ≠ 0 ∧ begin.toNat + len.toNat ≤ size ∧ len.toNat ≠ 0 ∧ len.toNat ≠ 4294967295 ∨
    size = 0 ∧ 2147483648 ≤ len.toNat ∧ len.toNat < 4294967295

/-- The size, taken as `int`, is neither 0 nor -1. -/
def SizeFits (size : Nat) : Prop := size % 4294967296 ≠ 0 ∧ size % 4294967296 ≠ 4294967295

instance (size : Nat) (begin len : UInt32) : Decidable (WindowFits size begin len) :=
  inferInstanceAs (Decidable (_ ∨ _))

instance (size : Nat) : Decidable (SizeFits size) := inferInstanceAs (Decidable (_ ∧ _))

/-- The call throws `out_of_range` and leaves the vector alone, or every element and every bin
it accesses exists. -/
def Guarded {β : Type} (data : List Float32)
    (call : Checked (List Float32 × Except FftError β)) : Prop :=
  call = .ok (data, .error .outOfRange) ∨ InBounds call

/-- A call that throws has made no other access. -/
theorem guarded_iff_inBounds {β : Type} {data : List Float32}
    {call : Checked (List Float32 × Except FftError β)} : Guarded data call ↔ InBounds call :=
  or_iff_right_of_imp fun refused => ⟨_, refused⟩

section Main

variable {fft : List FftwComplex → List FftwComplex} {data : List Float32}
  {samplingRate : Float32} {begin len : UInt32}

/-- A window that passes the test, or is not tested. -/
theorem inBounds_getFFTFreqMagWindow (fills : ∀ bins, (fft bins).length = bins.length)
    (le : data = [] ∨ (begin + len).toNat ≤ data.length) :
    InBounds (getFFTFreqMagWindow fft data samplingRate begin len) ↔
      InBounds (Detail.removeMeanWindow data begin len) ∧
        (∀ i < (toInt len.toNat).toNat, begin.toNat + i < data.length) ∧
        toInt len.toNat ≠ 0 ∧ toInt len.toNat ≠ -1 := by
  rw [getFFTFreqMagWindow, inBounds_bind]
  constructor
  · intro ⟨(data', r), removed, rest⟩
    obtain ⟨same, rfl⟩ := Detail.removeMeanWindow_ok le removed
    have spectrum := inBounds_bind_pure.1 rest
    rw [Detail.inBounds_getFFTFreqMag fills, same] at spectrum
    exact ⟨⟨_, removed⟩, spectrum⟩
  · intro ⟨⟨(data', r), removed⟩, spectrum⟩
    obtain ⟨same, rfl⟩ := Detail.removeMeanWindow_ok le removed
    refine ⟨_, removed, inBounds_bind_pure.2 ?_⟩
    rw [Detail.inBounds_getFFTFreqMag fills, same]
    exact spectrum

/-- Of an empty vector. -/
theorem inBounds_empty (fills : ∀ bins, (fft bins).length = bins.length) :
    InBounds (getFFTFreqMagWindow fft [] samplingRate begin len) ↔ WindowFits 0 begin len := by
  have untouched : InBounds (Detail.removeMeanWindow [] begin len) := inBounds_pure _
  have lt : len.toNat < 4294967296 := len.toNat_lt
  rw [inBounds_getFFTFreqMagWindow fills (.inl rfl), and_iff_right untouched, inside_iff,
    List.length_nil, WindowFits]
  obtain ⟨small, eq⟩ | ⟨large, eq⟩ := toInt_cases len.toNat
  · omega
  · omega

/-- Of a vector that has elements, and a window that passes the test. -/
theorem inBounds_tested (fills : ∀ bins, (fft bins).length = bins.length) (nonempty : data ≠ [])
    (le : (begin + len).toNat ≤ data.length) :
    InBounds (getFFTFreqMagWindow fft data samplingRate begin len) ↔
      WindowFits data.length begin len := by
  have pos : 0 < data.length := List.length_pos_iff.2 nonempty
  have lt : len.toNat < 4294967296 := len.toNat_lt
  have zero : len = 0 ↔ len.toNat = 0 := UInt32.toNat_inj.symm
  rw [inBounds_getFFTFreqMagWindow fills (.inr le), inside_iff, WindowFits,
    Detail.inBounds_removeMeanWindow nonempty le, zero]
  obtain ⟨small, eq⟩ | ⟨large, eq⟩ := toInt_cases len.toNat
  · omega
  · omega

/-- A window that fails the test is refused, and nothing is touched. -/
theorem getFFTFreqMagWindow_refused (nonempty : data ≠ [])
    (gt : data.length < (begin + len).toNat) :
    getFFTFreqMagWindow fft data samplingRate begin len = .ok (data, .error .outOfRange) := by
  rw [getFFTFreqMagWindow, Detail.removeMeanWindow, if_neg (by simpa using nonempty), if_pos gt]
  rfl

theorem guarded_window (fills : ∀ bins, (fft bins).length = bins.length) :
    Guarded data (getFFTFreqMagWindow fft data samplingRate begin len) ↔
      WindowFits data.length begin len := by
  rw [guarded_iff_inBounds]
  by_cases empty : data = []
  · subst empty
    exact inBounds_empty fills
  · rcases Nat.lt_or_ge data.length (begin + len).toNat with gt | le
    · have some : data.length ≠ 0 := fun none => empty (List.length_eq_zero_iff.1 none)
      exact iff_of_true ⟨_, getFFTFreqMagWindow_refused empty gt⟩ (.inl ⟨some, gt⟩)
    · exact inBounds_tested fills empty le

theorem length_removeMean (data : List Float32) :
    (Detail.removeMean data).length = data.length := by
  rw [Detail.removeMean]
  split
  · rfl
  · exact List.length_map ..

theorem inBounds_getFFTFreqMag (fills : ∀ bins, (fft bins).length = bins.length) :
    InBounds (getFFTFreqMag fft data samplingRate) ↔ SizeFits data.length := by
  rw [getFFTFreqMag, inBounds_bind_pure, Detail.inBounds_getFFTFreqMag fills, inside_iff,
    length_removeMean, SizeFits]
  obtain ⟨small, eq⟩ | ⟨large, eq⟩ := toInt_cases data.length
  · omega
  · omega

variable (data samplingRate begin len)

/-- Exactly when the two overloads touch nothing that does not exist. -/
theorem guarded_iff (fills : ∀ bins, (fft bins).length = bins.length) :
    (Guarded data (getFFTFreqMagWindow fft data samplingRate begin len) ↔
        WindowFits data.length begin len) ∧
      (InBounds (getFFTFreqMag fft data samplingRate) ↔ SizeFits data.length) :=
  ⟨guarded_window fills, inBounds_getFFTFreqMag fills⟩

end Main

/-- A single bin is its own transform. -/
theorem guarded_one :
    Guarded [1] (getFFTFreqMagWindow id [1] 1000 0 1) ∧ InBounds (getFFTFreqMag id [1] 1000) := by
  have fills (bins : List FftwComplex) : (id bins).length = bins.length := rfl
  obtain ⟨window, vector⟩ := guarded_iff [1] 1000 0 1 fills
  exact ⟨window.2 (by decide), vector.2 (by decide)⟩

/-- An empty window, one whose end exceeds 32 bits, and the empty vector. -/
theorem not_guarded_corners :
    ¬ Guarded [1] (getFFTFreqMagWindow id [1] 1000 0 0) ∧
      ¬ Guarded [1] (getFFTFreqMagWindow id [1] 1000 4294967295 1) ∧
      ¬ Guarded [] (getFFTFreqMagWindow id [] 1000 0 4) ∧
      ¬ InBounds (getFFTFreqMag id [] 1000) := by
  have fills (bins : List FftwComplex) : (id bins).length = bins.length := rfl
  refine ⟨?_, ?_, ?_, ?_⟩
  · rw [guarded_window fills]
    decide
  · rw [guarded_window fills]
    decide
  · rw [guarded_window fills]
    decide
  · rw [inBounds_getFFTFreqMag fills]
    decide

end FftLib

end Lra
