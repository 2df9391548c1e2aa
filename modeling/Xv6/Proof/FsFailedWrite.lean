import Xv6.Proof.MkfsLookup

namespace Xv6.Fs
open Xv6.Library

variable {n : Nat} {sb : Superblock} {s u : State n} {t : Fin n} {d : Int} {ip : Nat} {src : List Byte} {off : UInt32}

theorem filewrite_accepted (layout : Layout sb) (idle : Idle sb s ip) (notDevice : (current sb s ip).type ≠ T_DEV)
    (start : off.toNat ≤ (current sb s ip).size.toNat) :
    Spec (call t d (filewrite sb ip src off)) s (fun h => h.message = "balloc: out of blocks" ∧
        free sb s < need sb s ip (span off.toNat (accepted off.toNat src.length))) fun r u =>
        r = (if accepted off.toNat src.length = src.length then (src.length : Int) else -1,
          off + UInt32.ofNat (accepted off.toNat src.length)) ∧
        Wrote (· = ip) sb s u ip (span off.toNat (accepted off.toNat src.length)) off.toNat
        (src.take (accepted off.toNat src.length)) := by
  unfold filewrite
  simp only [call_bind, spec_bind]
  refine (filewriteFrom_spec layout (Nat.sub_le ..) (Nat.zero_le _) idle notDevice start fun _ member =>
    placesOf_subset_span member).mono ?_
  rintro r u ⟨result, wrote⟩
  rw [List.drop_zero] at wrote
  refine ⟨?_, wrote⟩
  rw [result, Nat.zero_add, Nat.sub_zero]

theorem filewrite_beyond {E : Halt n → Prop} (idle : Idle sb s ip) (notDevice : (current sb s ip).type ≠ T_DEV)
    (beyond : (current sb s ip).size.toNat < off.toNat) (nonempty : src ≠ []) :
    Spec (call t d (filewrite sb ip src off)) s E fun r u => r = (-1, off) ∧ Alike sb s u := by
  have positive : 0 < src.length := List.length_pos_of_ne_nil nonempty
  have value : maxChunk = 1536 := by decide
  have amount : ((src.drop 0).take (min (src.length - 0) maxChunk)).length = min src.length maxChunk := by
    rw [List.length_take, List.drop_zero]
    omega
  obtain ⟨m, fuel⟩ : ∃ m, src.length = m + 1 := ⟨src.length - 1, by omega⟩
  have loop : Spec (call t d (filewriteFrom sb ip src src.length 0 off)) s E fun r u => r = (0, off) ∧
    Alike sb s u := by
    rw [fuel, filewriteFrom, if_pos positive]
    refine refused_spec idle notDevice (by omega) (fun _ => by omega) fun u like _ => ?_
    rw [if_pos (by decide), if_neg (by decide)]
    exact ⟨rfl, like⟩
  unfold filewrite
  simp only [call_bind, spec_bind]
  refine loop.mono ?_
  rintro r u ⟨result, like⟩
  refine ⟨?_, like⟩
  rw [result]
  exact congrArg₂ Prod.mk (if_neg positive.ne) rfl

/-- A failed write has an effect exactly if a chunk fits before the one that does not. -/
theorem filewrite_failed (layout : Layout sb) (idle : Idle sb s ip) (file : (current sb s ip).type = T_FILE) :
    (∀ off' u, call t d (filewrite sb ip src off) s = .ok ((-1, off'), u) →
      contents sb u ip = contents sb s ip ∧ (current sb u ip).size = (current sb s ip).size ∧ off' = off) ↔
    ¬(off.toNat ≤ (contents sb s ip).length ∧ off.toNat + maxChunk ≤ MAXFILE * BSIZE ∧
      MAXFILE * BSIZE < off.toNat + src.length ∧
      need sb s ip (span off.toNat ((MAXFILE * BSIZE - off.toNat) / maxChunk * maxChunk)) ≤ free sb s) := by
  have value : MAXFILE * BSIZE = 71680 ∧ maxChunk = 1536 := by decide
  have notDevice : (current sb s ip).type ≠ T_DEV := by
    rw [file]
    decide
  have bounded := idle.owned.size ip rfl
  rw [length_contents]
  constructor
  · rintro kept ⟨start, chunk, large, enough⟩
    have amount : accepted off.toNat src.length = (MAXFILE * BSIZE - off.toNat) / maxChunk * maxChunk :=
      if_neg (by omega)
    have spec : Spec (call t d (filewrite sb ip src off)) s _ _ := filewrite_accepted layout idle notDevice start
    rw [amount] at spec
    generalize isCount : (MAXFILE * BSIZE - off.toNat) / maxChunk * maxChunk = count at enough spec
    have positive : maxChunk ≤ count ∧ off.toNat + count ≤ MAXFILE * BSIZE := by
      rw [value.1, value.2] at isCount ⊢
      rw [value.1, value.2] at chunk
      omega
    obtain ⟨h, -, -, _⟩ | ⟨r, u, run, result, -⟩ := spec.cases
    · omega
    rw [if_neg (by omega)] at result
    rw [result] at run
    have same := congrArg UInt32.toNat (kept _ u run).2.2
    rw [UInt32.toNat_add, toNat_ofNat (by omega)] at same
    omega
  intro spared _ u run
  by_cases start : off.toNat ≤ (current sb s ip).size.toNat
  · have spec : Spec (call t d (filewrite sb ip src off)) s _ _ := filewrite_accepted layout idle notDevice start
    obtain ⟨result, wrote⟩ := spec.ok run
    have partly : accepted off.toNat src.length ≠ src.length := fun all => by
      rw [if_pos all] at result
      have := congrArg Prod.fst result
      dsimp only at this
      omega
    have large : MAXFILE * BSIZE < off.toNat + src.length := by
      by_contra fits
      exact partly (if_pos (by omega))
    have amount : accepted off.toNat src.length = (MAXFILE * BSIZE - off.toNat) / maxChunk * maxChunk :=
      if_neg (by omega)
    rw [amount] at wrote result partly
    generalize isCount : (MAXFILE * BSIZE - off.toNat) / maxChunk * maxChunk = count at wrote result partly spared
    have less : count < src.length ∧ off.toNat + count ≤ MAXFILE * BSIZE := by
      rw [value.1, value.2] at isCount
      omega
    have length : (src.take count).length = count := List.length_take_of_le less.1.le
    by_cases chunk : off.toNat + maxChunk ≤ MAXFILE * BSIZE
    · have wrote' : Wrote (· = ip) sb s u ip (span off.toNat (src.take count).length) off.toNat (src.take count) := by
        rwa [length]
      have enough := wrote'.enough (by rw [length]; exact less.2)
      rw [length] at enough
      exact absurd ⟨start, chunk, large, enough⟩ spared
    obtain rfl : count = 0 := by
      rw [value.1, value.2] at isCount
      rw [value.1, value.2] at chunk
      omega
    rw [List.take_zero] at wrote
    have bytes := wrote.contents rfl start
    rw [List.append_nil, List.length_nil, Nat.add_zero, List.take_append_drop] at bytes
    refine ⟨bytes, UInt32.toNat_inj.mp ?_, ?_⟩
    · rw [← length_contents, bytes, length_contents]
    · exact (congrArg Prod.snd result).trans (UInt32.add_zero off)
  · by_cases nonempty : src = []
    · subst nonempty
      cases run
    · have spec : Spec (call t d (filewrite sb ip src off)) s (fun _ => False) _ :=
        filewrite_beyond idle notDevice (by omega) nonempty
      obtain ⟨result, like⟩ := spec.ok run
      refine ⟨like.contents, by rw [like.current], congrArg Prod.snd result⟩

theorem filewrite_failed_beyond : (∃ u, call 0 0 (filewrite sampleSb 1 [7] 10) sample = .ok ((-1, 10), u)) ∧
    ∀ off' u, call 0 0 (filewrite sampleSb 1 [7] 10) sample = .ok ((-1, off'), u) →
      contents sampleSb u 1 = contents sampleSb sample 1 ∧
      (current sampleSb u 1).size = (current sampleSb sample 1).size ∧ off' = 10 := by
  constructor
  · have spec : Spec (call 0 0 (filewrite sampleSb 1 [7] 10)) sample (fun _ => False) _ :=
      filewrite_beyond sample_idle (by decide) (by decide) nofun
    obtain ⟨r, u, run, rfl, -⟩ := spec.returns
    exact ⟨u, run⟩
  refine (filewrite_failed sample_layout sample_idle (by decide)).mpr fun ⟨start, _⟩ => ?_
  have short : (contents sampleSb sample 1).length = 3 := by decide +kernel
  rw [short] at start
  exact absurd start (by decide)

section Mkfs
open Xv6.Mkfs

theorem filewrite_partial : ∃ block, mkfs [⟨[97], []⟩] = .ok block ∧ Idle Mkfs.sb ((boot block : State 1).taken 2) 2 ∧
    (current Mkfs.sb ((boot block : State 1).taken 2) 2).type = T_FILE ∧
    ∃ u, call 0 0 (filewrite Mkfs.sb 2 (List.replicate 71681 7) 0)
    ((boot block : State 1).taken 2) = .ok ((-1, 70656), u) ∧
      contents Mkfs.sb ((boot block : State 1).taken 2) 2 = [] ∧ contents Mkfs.sb u 2 = List.replicate 70656 7 := by
  have fits : Fits [⟨[97], []⟩] := replicate_fits (m := 1) (by decide)
  obtain ⟨img, built, run⟩ := mkfs_eq fits
  obtain ⟨real, bytes⟩ : allocated Mkfs.sb (view img) 2 ∧ contents Mkfs.sb (view img.fixed) 2 = [] :=
    file_contents (j := 0) built rfl
  have like : Alike Mkfs.sb (view img.fixed) ((view img.fixed).taken 2) := taken_alike
  have isReal := like.allocated.mpr ((fixed_allocated built).mpr real)
  have idle : Idle Mkfs.sb ((view img.fixed).taken 2) 2 :=
    ⟨like.owned ((fixed_owned fits built).congr fun x this => this ▸ (fixed_allocated built).mpr real),
      isReal, taken_held,
      taken_lock, congrFun taken_buf⟩
  have file : (current Mkfs.sb ((view img.fixed).taken 2) 2).type = T_FILE := by
    rw [like.current, fixed_type built real.1, built.type 2 real]
    decide
  have empty : contents Mkfs.sb ((view img.fixed).taken 2) 2 = [] := like.contents.trans bytes
  have length : (List.replicate 71681 (7 : Byte)).length = 71681 := List.length_replicate
  have front : (List.replicate 71681 (7 : Byte)).take 70656 = List.replicate 70656 7 := List.take_replicate ..
  generalize List.replicate 71681 (7 : Byte) = src at length front ⊢
  have amount : accepted (0 : UInt32).toNat src.length = 70656 := by
    rw [length]
    decide
  have enough : need Mkfs.sb ((view img.fixed).taken 2) 2 (span 0 70656) ≤ free Mkfs.sb ((view img.fixed).taken 2) := by
    have count : img.freeblock = 60 := built.count.trans (by decide +kernel)
    have same : img.fixed.freeblock = img.freeblock := rfl
    rw [like.free, view_free, same, count]
    refine need_le_card.trans ?_
    rw [card_span_zero (by decide)]
    decide
  have spec : Spec (call 0 0 (filewrite Mkfs.sb 2 src 0)) ((view img.fixed).taken 2) _ _ :=
    filewrite_accepted layout idle (by rw [file]; decide) (Nat.zero_le _)
  rw [amount] at spec
  refine ⟨_, run, idle, file, ?_⟩
  obtain ⟨h, -, -, few⟩ | ⟨r, u, result, value, wrote⟩ := spec.cases
  · exact absurd few (Nat.not_lt.mpr enough)
  · rw [length, if_neg (by decide)] at value
    refine ⟨u, by rw [value] at result; exact result, empty, ?_⟩
    rw [wrote.contents rfl (Nat.zero_le _), empty, front,
      List.take_nil, List.drop_nil, List.nil_append, List.append_nil]

end Mkfs

end Xv6.Fs
