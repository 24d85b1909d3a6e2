import Mathlib.Algebra.Order.BigOperators.Group.List
import Mathlib.Tactic
set_option autoImplicit false

/-!
Fixed-width signed integers as they behave in a compiled program. A value is an
`Int`; an operation says what happens when the exact result does not fit.
-/

namespace MachineInt

def i64Min : Int := -9223372036854775808
def i64Max : Int := 9223372036854775807
def i32Min : Int := -2147483648
def i32Max : Int := 2147483647

def InI64 (x : Int) : Prop := i64Min ≤ x ∧ x ≤ i64Max
def InI32 (x : Int) : Prop := i32Min ≤ x ∧ x ≤ i32Max

instance (x : Int) : Decidable (InI64 x) := inferInstanceAs (Decidable (_ ∧ _))
instance (x : Int) : Decidable (InI32 x) := inferInstanceAs (Decidable (_ ∧ _))

/-- Two's-complement reduction onto a symmetric range of half-width `half`. -/
def wrapAt (half x : Int) : Int := (x + half) % (2 * half) - half

def wrap64 (x : Int) : Int := wrapAt 9223372036854775808 x
def wrap32 (x : Int) : Int := wrapAt 2147483648 x

theorem wrap32_of_inI32 {x : Int} (h : InI32 x) : wrap32 x = x := by
  unfold InI32 i32Min i32Max at h
  unfold wrap32 wrapAt; omega

theorem wrap64_of_inI64 {x : Int} (h : InI64 x) : wrap64 x = x := by
  unfold InI64 i64Min i64Max at h
  unfold wrap64 wrapAt; omega

def saturate64 (x : Int) : Int := max i64Min (min i64Max x)

theorem saturate64_of_inI64 {x : Int} (h : InI64 x) : saturate64 x = x := by
  unfold InI64 at h
  unfold saturate64; omega

theorem saturate64_nonneg {x : Int} (h : 0 ≤ x) : 0 ≤ saturate64 x := by
  unfold saturate64 i64Max; omega

def saturatingAdd (a b : Int) : Int := saturate64 (a + b)
def saturatingMul (a b : Int) : Int := saturate64 (a * b)

/-- Whether the program was compiled with overflow checks. -/
inductive Build where
  | debug | release
  deriving DecidableEq, Repr

inductive Panic where
  | overflow
  | indexOutOfBounds
  deriving DecidableEq, Repr

/-- The plain operators: a debug build traps where a release build wraps. -/
def settle64 (build : Build) (exact : Int) : Except Panic Int :=
  if InI64 exact then .ok exact
  else match build with
    | .debug => .error .overflow
    | .release => .ok (wrap64 exact)

def add64 (build : Build) (a b : Int) : Except Panic Int := settle64 build (a + b)
def sub64 (build : Build) (a b : Int) : Except Panic Int := settle64 build (a - b)
def mul64 (build : Build) (a b : Int) : Except Panic Int := settle64 build (a * b)

def settle32 (build : Build) (exact : Int) : Except Panic Int :=
  if InI32 exact then .ok exact
  else match build with
    | .debug => .error .overflow
    | .release => .ok (wrap32 exact)

def add32 (build : Build) (a b : Int) : Except Panic Int := settle32 build (a + b)

theorem settle32_of_inI32 (build : Build) {x : Int} (h : InI32 x) :
    settle32 build x = .ok x := by simp [settle32, h]

theorem settle64_of_inI64 (build : Build) {x : Int} (h : InI64 x) :
    settle64 build x = .ok x := by simp [settle64, h]

theorem mul64_release (a b : Int) : mul64 .release a b = .ok (wrap64 (a * b)) := by
  unfold mul64 settle64
  split
  · rename_i hin
    rw [wrap64_of_inI64 hin]
  · rfl

theorem settle64_debug_ok {x y : Int} (h : settle64 .debug x = .ok y) :
    InI64 x ∧ y = x := by
  unfold settle64 at h
  by_cases hx : InI64 x
  · simp [hx] at h
    exact ⟨hx, h.symm⟩
  · simp [hx] at h

theorem settle64_inI64 {build : Build} {x y : Int} (h : settle64 build x = .ok y) : InI64 y := by
  unfold settle64 at h
  by_cases hx : InI64 x
  · rw [if_pos hx, Except.ok.injEq] at h
    exact h ▸ hx
  · rw [if_neg hx] at h
    cases build with
    | debug => cases h
    | release =>
      cases h
      unfold InI64 i64Min i64Max wrap64 wrapAt
      omega

/-- `Iterator::sum` over `i64`, adding from the left. -/
def sum64 (build : Build) (acc : Int) : List Int → Except Panic Int
  | [] => .ok acc
  | x :: xs => do
    let acc ← add64 build acc x
    sum64 build acc xs

theorem sum64_of_nonneg (build : Build) (acc : Int) (xs : List Int) (hacc : 0 ≤ acc)
    (hxs : ∀ x ∈ xs, 0 ≤ x) (hmax : acc + xs.sum ≤ i64Max) :
    sum64 build acc xs = .ok (acc + xs.sum) := by
  induction xs generalizing acc with
  | nil => simp [sum64]
  | cons x xs ih =>
    have hx : 0 ≤ x := hxs x (by simp)
    have hrest : 0 ≤ xs.sum := List.sum_nonneg fun y hy => hxs y (by simp [hy])
    simp only [List.sum_cons] at hmax
    have hin : InI64 (acc + x) := by unfold InI64 i64Min; omega
    have ht := ih (acc + x) (by omega) (fun y hy => hxs y (by simp [hy])) (by omega)
    simp only [sum64, add64, settle64_of_inI64 build hin, List.sum_cons, bind, Except.bind]
    rw [ht]
    congr 1; omega

end MachineInt
