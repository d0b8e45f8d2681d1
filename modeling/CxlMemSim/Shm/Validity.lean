import CxlMemSim.Shm.ByteStore

/-! `is_valid_address` compares single addresses with the configured range, `get_cacheline_data` compares the line of an
address with it. -/
namespace CxlMemSim
open ByteMemory

/-- The address is valid just if a byte can be read there, and that byte is one of the data area. -/
structure ValidExactly (mem : Segment) (addr : UInt64) : Prop where
  agree : isValidAddress mem addr = true ↔ (readCacheline mem addr 1).isSome
  inside : ∀ bytes ∈ readCacheline mem addr 1,
    bytes = [mem (backing mem addr)] ∧ (backing mem addr).toNat < (numCachelines mem).toNat * 64

/-- Any address counts, or the range starts with a line and its end is an address. -/
def Layout.Bounded (l : Layout) : Prop := l.base = 0 ∨ 64 ∣ l.base.toNat ∧ l.base.toNat + l.size < 2 ^ 64

section
variable {l : Layout} {mem : Segment} {addr : UInt64}

theorem accessible_one_iff : Accessible mem addr 1 ↔
    baseAddr mem = 0 ∨ (getCachelineData mem (addrToCacheline addr)).isSome := by
  have inLine := Nat.mod_lt addr.toNat (by decide : 64 > 0)
  constructor
  · rintro ⟨-, -, mode⟩
    exact mode.imp_right And.left
  · intro mode
    exact ⟨by decide, by decide, mode.imp_right fun found => ⟨found, by omega⟩⟩

theorem isSome_readCacheline_one : (readCacheline mem addr 1).isSome ↔ Accessible mem addr 1 := by
  rw [readCacheline_eq]
  split
  · rename_i accepted
    exact iff_of_true rfl accepted
  · rename_i refused
    exact iff_of_false Bool.false_ne_true refused

variable (heads : l.Heads mem)
include heads

theorem Layout.Heads.read_inside {bytes : List UInt8} (read : bytes ∈ readCacheline mem addr 1) :
    bytes = [mem (backing mem addr)] ∧ (backing mem addr).toNat < (numCachelines mem).toNat * 64 := by
  have accepted : Accessible mem addr 1 := isSome_readCacheline_one.mp (Option.isSome_iff_exists.mpr ⟨bytes, read⟩)
  have below := heads.backing_lt accepted Nat.zero_lt_one
  rw [walk_zero] at below
  rw [Option.mem_def, readCacheline_eq, if_pos accepted] at read
  refine ⟨?_, heads.lines ▸ below⟩
  rw [← Option.some.inj read]
  simp [peek]

theorem Layout.Heads.valid_iff (base : l.base ≠ 0) : isValidAddress mem addr = true ↔
    l.base.toNat ≤ addr.toNat ∧ addr.toNat < (l.base.toNat + l.size) % 2 ^ 64 := by
  have room := l.room
  have ends : (l.base + l.lines * 64).toNat = (l.base.toNat + l.size) % 2 ^ 64 := by
    rw [UInt64.toNat_add, UInt64.toNat_mul, Nat.add_mod_mod]
    rfl
  simp only [isValidAddress, heads.base, heads.lines, Bool.or_eq_true, Bool.and_eq_true, decide_eq_true_eq,
    UInt64.le_iff_toNat_le, UInt64.lt_iff_toNat_lt, ends, base, false_or]

theorem Layout.Heads.readable_iff (base : l.base ≠ 0) : (readCacheline mem addr 1).isSome ↔
    l.base.toNat ≤ addr.toNat / 64 * 64 ∧ (addr.toNat / 64 * 64 - l.base.toNat) / 64 < l.lines.toNat := by
  have other : baseAddr mem ≠ 0 := heads.base ▸ base
  rw [isSome_readCacheline_one, accessible_one_iff, or_iff_right other, isSome_getCachelineData_iff other, heads.base,
    heads.lines, UInt64.le_iff_toNat_le, addrToCacheline_toNat]
  refine and_congr_right fun above => ?_
  rw [UInt64.lt_iff_toNat_lt, UInt64.toNat_div, UInt64.toNat_sub_of_le _ _ (by
    rw [UInt64.le_iff_toNat_le, addrToCacheline_toNat]
    exact above), addrToCacheline_toNat]
  rfl

theorem validExactly_of_bounded (bounded : l.Bounded) (addr : UInt64) : ValidExactly mem addr := by
  refine ⟨?_, fun _ => heads.read_inside⟩
  by_cases base : l.base = 0
  · have any : baseAddr mem = 0 := heads.base.trans base
    rw [isSome_readCacheline_one, accessible_one_iff]
    exact iff_of_true (by simp [isValidAddress, any]) (Or.inl any)
  · obtain ⟨aligned, fits⟩ := bounded.resolve_left base
    rw [heads.valid_iff base, heads.readable_iff base, Nat.mod_eq_of_lt fits, Layout.size]
    omega

theorem validExactly_of_last (last : 2 ^ 64 - 64 < l.base.toNat) (addr : UInt64) : ValidExactly mem addr := by
  refine ⟨?_, fun _ => heads.read_inside⟩
  have base : l.base ≠ 0 := by
    intro zero
    rw [zero] at last
    exact absurd last (by decide)
  have pos := l.pos
  have room := l.room
  have below := addr.toNat_lt
  have bound := l.base.toNat_lt
  rw [heads.valid_iff base, heads.readable_iff base, Layout.size]
  omega

theorem bounded_of_validExactly (everywhere : ∀ addr, ValidExactly mem addr) :
    l.Bounded ∨ 2 ^ 64 - 64 < l.base.toNat := by
  by_contra neither
  obtain ⟨irregular, early⟩ := not_or.mp neither
  obtain ⟨base, irregular⟩ := not_or.mp irregular
  have pos := l.pos
  have room := l.room
  have bound := l.base.toNat_lt
  have agree : ∀ a < 2 ^ 64, (l.base.toNat ≤ a ∧ a < (l.base.toNat + l.size) % 2 ^ 64) ↔
      l.base.toNat ≤ a / 64 * 64 ∧ (a / 64 * 64 - l.base.toNat) / 64 < l.lines.toNat := by
    intro a below
    have at_a := (everywhere (UInt64.ofNat a)).agree
    rwa [heads.valid_iff base, heads.readable_iff base, UInt64.toNat_ofNat_of_lt' below] at at_a
  by_cases fits : l.base.toNat + l.size < 2 ^ 64
  · have first := agree l.base.toNat bound
    rw [Nat.mod_eq_of_lt fits, Layout.size] at first
    rw [Layout.size] at fits irregular
    omega
  · have line := agree ((l.base.toNat + 63) / 64 * 64) (by omega)
    rw [Layout.size] at line fits
    omega

end

theorem validExactly_iff (shmSize base : UInt64) (capacity : 2 ^ 20 ≤ shmSize.toNat) (mem : Segment)
    (heads : (Layout.ofSize shmSize base capacity).Heads mem) :
    (∀ addr, ValidExactly mem addr) ↔
      base = 0 ∨ (64 ∣ base.toNat ∧ base.toNat + (Layout.ofSize shmSize base capacity).size < 2 ^ 64) ∨
        2 ^ 64 - 64 < base.toNat := by
  constructor
  · intro everywhere
    exact or_assoc.mp (bounded_of_validExactly heads everywhere)
  · intro condition addr
    rcases or_assoc.mpr condition with bounded | last
    · exact validExactly_of_bounded heads bounded addr
    · exact validExactly_of_last heads last addr

theorem validExactly_iff_aligned :
    let mem := freshMapping 0x100000 0x1000
    isValidAddress mem 0x1040 = true ∧ ValidExactly mem 0x1040 := by
  intro mem
  have heads : (Layout.ofSize 0x100000 0x1000 (by decide)).Heads mem :=
    ⟨baseAddr_initializeHeader zero_unformatted, numCachelines_initializeHeader zero_unformatted⟩
  refine ⟨by decide +kernel, ?_⟩
  exact (validExactly_iff 0x100000 0x1000 (by decide) mem heads).mpr (Or.inr (Or.inl ⟨by decide, by decide⟩)) 0x1040

/-- The first address of a base in the middle of a line is valid and not readable, that of a range that wraps the
other way round. -/
theorem valid_unreadable_and_readable_invalid :
    (isValidAddress (freshMapping 0x100000 0x1020) 0x1020 = true ∧
      readCacheline (freshMapping 0x100000 0x1020) 0x1020 1 = none) ∧
    (isValidAddress (freshMapping 0x100000 0xFFFFFFFFFFFFF000) 0xFFFFFFFFFFFFF000 = false ∧
      readCacheline (freshMapping 0x100000 0xFFFFFFFFFFFFF000) 0xFFFFFFFFFFFFF000 1 = some [0]) := by
  refine ⟨⟨by decide +kernel, by decide +kernel⟩, by decide +kernel, by decide +kernel⟩

end CxlMemSim
