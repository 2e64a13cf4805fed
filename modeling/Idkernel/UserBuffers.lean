import Idkernel.FileCalls

/-!
# The buffers of the file calls

`open` and `read` test the topmost bit of the two ends of a buffer. That keeps
out the kernel's half, but not the addresses between the two halves, and the
sum of address and length is not protected against overflow.
-/
namespace Idkernel

open Address Traced Locks

variable {pg : Paging} {σ κ α : Type}

/-- What both calls do before anything else. -/
def checkUserBuffer (ar : Arith) (ptr len : Nat) : Comp σ κ SyscallError Unit := do
  Comp.ofExcept (checkAddrUserspace ptr)
  let stop ← Comp.unwrap (ar.add ptr len)
  Comp.ofExcept (checkAddrUserspace stop)

/-- The computation begins with these checks. -/
def Guarded (checks : KernelM pg SyscallError Unit) (m : KernelM pg SyscallError α) : Prop :=
  ∃ rest, m = checks >>= rest

theorem guarded_of {c : KernelM pg SyscallError Unit} {m : KernelM pg SyscallError Nat}
    {check : Nat → KernelM pg SyscallError Unit} (rest : Unit → KernelM pg SyscallError α) :
    Guarded (c >>= fun _ => m >>= check) (c >>= fun _ => m >>= fun n => check n >>= rest) := by
  refine ⟨rest, ?_⟩
  simp only [Comp.bind_assoc]

theorem openPath_guarded (env : Env pg) (ptr len mode : Nat) :
    Guarded (checkUserBuffer env.arith ptr len) (FileCall.openPath env ptr len mode) := guarded_of _

theorem read_guarded (env : Env pg) (fd ptr len : Nat) :
    Guarded (checkUserBuffer env.arith ptr len) (FileCall.read env fd ptr len) := guarded_of _

/-- The checks do not panic, nor accept a sum that has wrapped around, and what they accept
lies below the middle of the address space. -/
def BufferSafe (ar : Arith) (ptr len : Nat) : Prop :=
  (checkUserBuffer ar ptr len () : Ran Unit Unit _ _).outcome ≠ .panic ∧
    ((checkUserBuffer ar ptr len () : Ran Unit Unit _ _).outcome = .ok () →
      ptr + len < 2 ^ 64 ∧ ∀ x, ptr ≤ x → x < ptr + len → x < 2 ^ 47)

/-- The kernel's half, or an end in it, is refused; anything else has to be empty or end in time. -/
def BufferFits (ptr len : Nat) : Prop :=
  2 ^ 63 ≤ ptr ∨ ptr + len < 2 ^ 64 ∧ (2 ^ 63 ≤ ptr + len ∨ len = 0 ∨ ptr + len ≤ 2 ^ 47)

section Checks

variable {ar : Arith} {ptr len : Nat}

theorem checkUserBuffer_kernel (ar : Arith) (len : Nat) (hptr : ptr < 2 ^ 64) (h : 2 ^ 63 ≤ ptr) (s : σ) :
    ∃ e, (checkUserBuffer ar ptr len s : Ran σ κ _ _).outcome = .err e := by
  unfold checkUserBuffer
  cases hcheck : checkAddrUserspace ptr with
  | ok u =>
    have := (checkAddrUserspace_ok hptr).mp hcheck
    omega
  | error e => exact ⟨e, rfl⟩

/-- From an accepted address on, the sum decides. -/
theorem checkUserBuffer_user (h : ptr < 2 ^ 63) (s : σ) :
    (checkUserBuffer ar ptr len s : Ran σ κ _ _) =
      (Comp.unwrap (ar.add ptr len) >>= fun stop => Comp.ofExcept (checkAddrUserspace stop)) s := by
  have hcheck : checkAddrUserspace ptr = .ok () := (checkAddrUserspace_ok (by omega)).mpr h
  unfold checkUserBuffer
  rw [hcheck, Comp.ofExcept_ok, Comp.ret_bind]

theorem checkUserBuffer_sum (ar : Arith) (h : ptr < 2 ^ 63) (hsum : ptr + len < 2 ^ 64) (s : σ) :
    (checkUserBuffer ar ptr len s : Ran σ κ _ _).outcome ≠ .panic ∧
      ((checkUserBuffer ar ptr len s : Ran σ κ _ _).outcome = .ok () ↔ ptr + len < 2 ^ 63) := by
  rw [checkUserBuffer_user h, Arith.add_of_lt ar hsum, Comp.unwrap_some, Comp.ret_bind,
    ← checkAddrUserspace_ok hsum]
  cases checkAddrUserspace (ptr + len) with
  | ok u => simp
  | error e => simp

/-- A sum that is too large panics, or is accepted. -/
theorem checkUserBuffer_wraps (ar : Arith) (h : ptr < 2 ^ 63) (hlen : len < 2 ^ 64) (hsum : 2 ^ 64 ≤ ptr + len)
    (s : σ) :
    (checkUserBuffer ar ptr len s : Ran σ κ _ _).outcome = .panic ∨
      (checkUserBuffer ar ptr len s : Ran σ κ _ _).outcome = .ok () := by
  rw [checkUserBuffer_user h]
  cases ar with
  | checked =>
    have hadd : Arith.checked.add ptr len = none := if_neg (by omega)
    rw [hadd]
    exact .inl rfl
  | wrapping =>
    have hadd : Arith.wrapping.add ptr len = some ((ptr + len) % 2 ^ 64) := if_neg (by omega)
    have hcheck : checkAddrUserspace ((ptr + len) % 2 ^ 64) = .ok () :=
      (checkAddrUserspace_ok (by omega)).mpr (by omega)
    rw [hadd, Comp.unwrap_some, Comp.ret_bind, hcheck]
    exact .inr rfl

theorem bufferSafe_iff (hptr : ptr < 2 ^ 64) (hlen : len < 2 ^ 64) :
    BufferSafe ar ptr len ↔ BufferFits ptr len := by
  unfold BufferSafe BufferFits
  by_cases hkernel : 2 ^ 63 ≤ ptr
  · obtain ⟨e, he⟩ := checkUserBuffer_kernel (κ := Unit) ar len hptr hkernel ()
    refine iff_of_true ⟨by simp [he], by simp [he]⟩ (.inl hkernel)
  have huser : ptr < 2 ^ 63 := by omega
  by_cases hsum : ptr + len < 2 ^ 64
  · obtain ⟨hno, hok⟩ := checkUserBuffer_sum (κ := Unit) ar huser hsum ()
    rw [hok]
    constructor
    · rintro ⟨_, h⟩
      refine .inr ⟨hsum, ?_⟩
      by_contra hout
      -- the last address is the one that is not the user's
      have hlast := (h (by omega)).2 (ptr + len - 1) (by omega) (by omega)
      omega
    · intro hfits
      refine ⟨hno, fun _ => ⟨hsum, fun x hx hx' => ?_⟩⟩
      omega
  · constructor
    · rintro ⟨hno, h⟩
      rcases checkUserBuffer_wraps (κ := Unit) ar huser hlen (by omega) () with hp | hok
      · exact absurd hp hno
      · exact absurd (h hok).1 hsum
    · intro hfits
      omega

end Checks

/-- The checks that `open` and `read` begin with protect exactly the buffers that fit. -/
theorem user_buffers_safe (ar : Arith) (ptr len : UInt64) :
    (∀ (pg : Paging) (env : Env pg) (mode : Nat), env.arith = ar →
      Guarded (checkUserBuffer ar ptr.toNat len.toNat) (FileCall.openPath env ptr.toNat len.toNat mode)) ∧
    (∀ (pg : Paging) (env : Env pg) (fd : Nat), env.arith = ar →
      Guarded (checkUserBuffer ar ptr.toNat len.toNat) (FileCall.read env fd ptr.toNat len.toNat)) ∧
    (BufferSafe ar ptr.toNat len.toNat ↔ BufferFits ptr.toNat len.toNat) := by
  refine ⟨?_, ?_, bufferSafe_iff ptr.toNat_lt len.toNat_lt⟩
  · rintro pg env mode rfl
    exact openPath_guarded env ptr.toNat len.toNat mode
  · rintro pg env fd rfl
    exact read_guarded env fd ptr.toNat len.toNat

/-- Two pages around the middle are accepted; a length that leads past the top stops an
overflow-checked kernel, and is accepted by the other one. -/
theorem user_buffers_unsafe :
    (checkUserBuffer .checked 0x7ffffffff000 0x2000 () : Ran Unit Unit _ _).outcome = .ok () ∧
      ¬ BufferSafe .checked 0x7ffffffff000 0x2000 ∧
      (checkUserBuffer .checked 0x1000 0xfffffffffffff001 () : Ran Unit Unit _ _).outcome = .panic ∧
      (checkUserBuffer .wrapping 0x1000 0xfffffffffffff001 () : Ran Unit Unit _ _).outcome = .ok () ∧
      ¬ BufferSafe .wrapping 0x1000 0xfffffffffffff001 := by
  refine ⟨rfl, fun h => ?_, rfl, rfl, fun h => ?_⟩
  · exact absurd ((h.2 rfl).2 0x800000000000 (by decide) (by decide)) (by decide)
  · exact absurd (h.2 rfl).1 (by decide)

end Idkernel
