import Mathlib.Data.List.Nodup
import StyleSync.Proofs.Numeric.Numerals
import StyleSync.Suffix

/-! # Suffixes one after another

* `SuffixSource.drawMany_add`: drawing suffixes in two parts;
* `CounterSuffix.drawMany_eq`: a counter hands out the numerals of the numbers from where it stands, and
  starts again at zero after the last one;
* `CounterSuffix.nodup_drawMany`: it does not repeat itself before it has handed out all of them.
-/

set_option autoImplicit false

namespace StyleSync

namespace SuffixSource

variable {ν : Type} [SuffixSource ν]

theorem length_drawMany (count : ℕ) (source : ν) : (drawMany count source).1.length = count := by
  induction count generalizing source with
  | zero => rfl
  | succ count ih => simp only [drawMany, List.length_cons, ih]

theorem drawMany_add (count more : ℕ) (source : ν) :
    drawMany (count + more) source =
      ((drawMany count source).1 ++ (drawMany more (drawMany count source).2).1,
        (drawMany more (drawMany count source).2).2) := by
  induction count generalizing source with
  | zero =>
    rw [Nat.zero_add]
    rfl
  | succ count ih =>
    rw [Nat.add_right_comm]
    simp only [drawMany, ih, List.cons_append]

end SuffixSource

namespace CounterSuffix

open SuffixSource

/-- The suffix that a counter hands out at a number. -/
def suffixAt (number : UInt64) : String :=
  String.ofList (numeral radix number.toNat)

theorem suffixAt_injective : Function.Injective suffixAt := by
  intro a b h
  have hnumerals : numeral radix a.toNat = numeral radix b.toNat := String.ofList_injective h
  exact UInt64.toNat_inj.mp (numeral_injective (by decide) (by decide) hnumerals)

theorem dash_not_mem_suffixAt (number : UInt64) : '-' ∉ (suffixAt number).toList := by
  rw [suffixAt, String.toList_ofList]
  exact dash_not_mem_numeral (by decide) (by decide) number.toNat

theorem drawMany_eq (count : ℕ) (source : CounterSuffix) :
    drawMany count source =
      ((List.range count).map fun i => suffixAt (source.next + UInt64.ofNat i),
        ⟨source.next + UInt64.ofNat count⟩) := by
  induction count generalizing source with
  | zero => simp [drawMany]
  | succ count ih =>
    have hnext : ∀ i : ℕ, source.next + 1 + UInt64.ofNat i = source.next + UInt64.ofNat (i + 1) := by
      intro i
      rw [UInt64.ofNat_add, UInt64.add_assoc, UInt64.add_comm 1]
      rfl
    simp only [drawMany, draw_eq, ih, List.range_succ_eq_map, List.map_cons, List.map_map, hnext]
    simp [suffixAt, Function.comp_def]

/-- A counter hands out as many different suffixes as there are numbers for it. -/
theorem nodup_drawMany {count : ℕ} (hcount : count ≤ UInt64.size) (source : CounterSuffix) :
    (drawMany count source).1.Nodup := by
  rw [drawMany_eq]
  refine List.nodup_range.map_on ?_
  intro i hi j hj hsame
  rw [List.mem_range] at hi hj
  have hnumber : UInt64.ofNat i = UInt64.ofNat j :=
    (UInt64.add_right_inj source.next).mp (suffixAt_injective hsame)
  have hmod := congrArg UInt64.toNat hnumber
  rw [UInt64.size] at hcount
  rw [UInt64.toNat_ofNat', UInt64.toNat_ofNat'] at hmod
  omega

theorem dash_not_mem_of_mem_drawMany {count : ℕ} {source : CounterSuffix} {suffix : String}
    (h : suffix ∈ (drawMany count source).1) : '-' ∉ suffix.toList := by
  rw [drawMany_eq] at h
  obtain ⟨i, -, rfl⟩ := List.mem_map.mp h
  exact dash_not_mem_suffixAt _

end CounterSuffix

end StyleSync
