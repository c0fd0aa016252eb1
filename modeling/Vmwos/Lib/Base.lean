import Mathlib.Algebra.GroupWithZero.Nat
import Mathlib.Data.List.Basic

/-!
# C integers, error codes and strings of the kernel

The kernel is compiled for 32-bit ARM, where `char` is unsigned: a byte is a
`UInt8`. Wider integers are `Nat` or `Int`, and the conversions that can lose
bits are written out (`int32`, `uint32`, `uint64`). A call that does not come
back to its caller ends in `Stuck`.
-/

set_option autoImplicit false

namespace Vmwos

/-- Conversion to `int32_t`. -/
def int32 (n : Int) : Int := (n + 2147483648) % 4294967296 - 2147483648

/-- Conversion to `uint32_t`. -/
def uint32 (n : Nat) : Nat := n % 4294967296

/-- Conversion to `uint64_t`. -/
def uint64 (n : Nat) : Nat := n % 18446744073709551616

theorem int32_of_lt {n : Nat} (h : n < 2147483648) : int32 n = n := by
  unfold int32
  omega

theorem uint32_of_lt {n : Nat} (h : n < 4294967296) : uint32 n = n :=
  Nat.mod_eq_of_lt h

theorem uint64_of_lt {n : Nat} (h : n < 18446744073709551616) : uint64 n = n :=
  Nat.mod_eq_of_lt h

/-- Why a call does not return: the sector search never finds a free sector, a
chain is followed for ever, or memory outside an object is accessed. -/
inductive Stuck where
  | noFreeSector
  | endless
  | badAccess
  deriving DecidableEq, Repr

@[simp] theorem ok_bind {α β : Type} (a : α) (f : α → Except Stuck β) :
    (Except.ok a >>= f) = f a := rfl

@[simp] theorem error_bind {α β : Type} (e : Stuck) (f : α → Except Stuck β) :
    ((.error e : Except Stuck α) >>= f) = .error e := rfl

/-- A call of `printk`: the format, and the words that it is given. -/
structure PrintkCall where
  format : String
  words : List UInt32
  deriving DecidableEq, Repr

/-! ## Error codes -/

def enoent : Int := 2
def e2big : Int := 7
def ebadf : Int := 9
def enomem : Int := 12
def enodev : Int := 19
def enotdir : Int := 20
def eisdir : Int := 21
def einval : Int := 22
def enfile : Int := 23
def enotty : Int := 25
def erofs : Int := 30
def erange : Int := 34
def enosys : Int := 38

/-! ## Strings

A C string is the list of its characters before the terminating NUL. -/

/-- A C string. -/
abbrev CString := List UInt8

/-- The characters of an array up to its first NUL are the string in front of it. -/
theorem takeWhile_terminated {s : CString} (hnul : 0 ∉ s) (behind : List UInt8) :
    (s ++ 0 :: behind).takeWhile (· ≠ 0) = s := by
  rw [List.takeWhile_append_of_pos, List.takeWhile_cons_of_neg, List.append_nil]
  · simp
  · intro c hc
    have hne : c ≠ 0 := fun h0 => hnul (h0 ▸ hc)
    exact decide_eq_true hne

/-- `strncmp`: at most `n` characters are compared, up to the first difference
or the common terminator. -/
def strncmp : CString → CString → Nat → Int
  | _, _, 0 => 0
  | s1, s2, n + 1 =>
      let r : Int := (s1.headD 0).toNat - (s2.headD 0).toNat
      if r ≠ 0 then r
      else if s1.headD 0 = 0 then 0
      else strncmp s1.tail s2.tail n

/-- Strings without a NUL compare equal when their first `n` characters do. -/
theorem strncmp_eq_zero_iff {s1 s2 : CString} (h1 : 0 ∉ s1) (h2 : 0 ∉ s2) (n : Nat) :
    strncmp s1 s2 n = 0 ↔ s1.take n = s2.take n := by
  induction n generalizing s1 s2 with
  | zero => simp [strncmp]
  | succ n ih =>
      cases s1 with
      | nil =>
          cases s2 with
          | nil => simp [strncmp]
          | cons b s2 =>
              have hb : b.toNat ≠ 0 := fun h => h2 (by simp [← UInt8.toNat_inj, h])
              simp [strncmp, hb]
      | cons a s1 =>
          have ha : a ≠ 0 := fun h => h1 (by simp [h])
          cases s2 with
          | nil =>
              have ha' : a.toNat ≠ 0 := fun h => ha (UInt8.toNat_inj.1 h)
              simp [strncmp, ha']
          | cons b s2 =>
              have h1' : 0 ∉ s1 := fun h => h1 (List.mem_cons_of_mem a h)
              have h2' : 0 ∉ s2 := fun h => h2 (List.mem_cons_of_mem b h)
              have ih := ih h1' h2'
              by_cases hab : a = b
              · subst hab
                simp [strncmp, ha, ih]
              · -- the first characters differ, and so do the strings
                have hne : (a.toNat : Int) - b.toNat ≠ 0 := by
                  intro h
                  exact hab (UInt8.toNat_inj.1 (by omega))
                simp [strncmp, hab, hne]

/-- Comparing as many characters as the first string has tests whether it is a prefix. -/
theorem strncmp_length_eq_zero_iff {s1 s2 : CString} (h1 : 0 ∉ s1) (h2 : 0 ∉ s2) :
    strncmp s1 s2 s1.length = 0 ↔ s1 <+: s2 := by
  rw [strncmp_eq_zero_iff h1 h2, List.take_length, List.prefix_iff_eq_take]

end Vmwos
