import Xv6.Proof.LinkCounts

namespace Xv6.Namespace
open Xv6.Library Xv6.Directory
open Function (update update_self update_idem update_eq_self_iff update_eq_self update_apply update_of_ne)

variable {n : Nat} {s u v : State n} {E : Stop → Prop} {i d ip : Inum} {name : Name} {path rest word : Path}
  {Q : Unit → State n → Prop}

section Components

def components (path : Path) : List Name := ((path.splitOnP (· = slash)).filter (· ≠ [])).map (·.take DIRSIZ)

theorem head_dropWhile {p : Directory.Byte → Bool} {c : Directory.Byte} (first : (path.dropWhile p).head? = some c) :
    p c = false := by
  have := List.head?_dropWhile_not p path
  rwa [first] at this

theorem components_slash (path : Path) : components (slash :: path) = components path := by
  unfold components
  rw [List.splitOnP_cons_eq_if_modifyHead, if_pos (decide_eq_true rfl), List.filter_cons_of_neg (by simp)]

theorem components_dropWhile (path : Path) : components (path.dropWhile (· = slash)) = components path := by
  induction path with
  | nil => rfl
  | cons c _ ih =>
    rw [List.dropWhile_cons]
    split_ifs with isSlash
    · rw [ih, of_decide_eq_true isSlash, components_slash]
    · rfl

theorem components_word (nonempty : word ≠ []) (clean : ∀ c ∈ word, decide (c = slash) = false)
    (ends : ∀ c, rest.head? = some c → c = slash) :
    components (word ++ rest) = word.take DIRSIZ :: components rest := by
  cases rest with
  | nil =>
    unfold components
    rw [List.append_nil, List.splitOnP_eq_singleton clean, List.filter_cons_of_pos (by simpa using nonempty)]
    rfl
  | cons c =>
    obtain rfl := ends c rfl
    rw [components_slash]
    unfold components
    rw [List.splitOnP_append_cons_of_forall_mem clean slash (decide_eq_true rfl),
      List.filter_cons_of_pos (by simpa using nonempty), List.map_cons]

theorem skipelem_none (last : skipelem path = none) : components path = [] := by
  rw [← components_dropWhile]
  unfold skipelem at last
  cases front : path.dropWhile (· = slash) with
  | nil => rfl
  | cons c s =>
    rw [front] at last
    cases last

theorem skipelem_some (next : skipelem path = some (name, rest)) :
    components path = name :: components rest ∧ rest.length < path.length ∧ ∀ c, rest.head? = some c → c ≠ slash := by
  unfold skipelem at next
  have shorter : (path.dropWhile (· = slash)).length ≤ path.length := (List.dropWhile_sublist _).length_le
  rw [← components_dropWhile path]
  have start : ∀ c, (path.dropWhile (· = slash)).head? = some c → c ≠ slash :=
    fun c first => of_decide_eq_false (head_dropWhile first)
  cases front : path.dropWhile (· = slash) with
  | nil =>
    rw [front] at next
    cases next
  | cons c s =>
    rw [front] at next shorter start
    cases next
    have notSlash := start c rfl
    have word : (c :: s).takeWhile (· ≠ slash) = c :: s.takeWhile (· ≠ slash) := by
      rw [List.takeWhile_cons, if_pos (decide_eq_true notSlash)]
    have tail : (c :: s).dropWhile (· ≠ slash) = s.dropWhile (· ≠ slash) := by
      rw [List.dropWhile_cons, if_pos (decide_eq_true notSlash)]
    have less : (((c :: s).dropWhile (· ≠ slash)).dropWhile (· = slash)).length < (c :: s).length := by
      rw [tail, List.length_cons]
      have first := (List.dropWhile_sublist (· = slash) (l := s.dropWhile (· ≠ slash))).length_le
      have second := (List.dropWhile_sublist (· ≠ slash) (l := s)).length_le
      omega
    refine ⟨?_, less.trans_le shorter, fun c first => of_decide_eq_false (head_dropWhile first)⟩
    · conv_lhs => rw [← List.takeWhile_append_dropWhile (p := (· ≠ slash)) (l := c :: s)]
      rw [components_word, components_dropWhile]
      · rw [word]
        exact List.cons_ne_nil _ _
      · intro c member
        have := List.all_eq_true.mp List.all_takeWhile c member
        exact decide_eq_false (of_decide_eq_true this)
      · exact fun c first => not_not.mp (of_decide_eq_false (head_dropWhile first))

theorem components_eq_nil (start : ∀ c, path.head? = some c → c ≠ slash) : path = [] ↔ components path = [] := by
  refine ⟨fun none => none ▸ rfl, fun none => ?_⟩
  cases path with
  | nil => rfl
  | cons c s =>
    have front : (c :: s).dropWhile (· = slash) = c :: s := by
      rw [List.dropWhile_cons, if_neg (by simpa using start c rfl)]
    obtain ⟨⟨_, _⟩, next⟩ : ∃ found, skipelem (c :: s) = some found := ⟨_, by rw [skipelem, front]⟩
    rw [(skipelem_some next).1] at none
    cases none

end Components

section Blocks

def State.Fits (u : State n) (d : Inum) (k : Nat) : Prop :=
  k ≤ u.mapped d ∨ k ≤ MAXFILE ∧ blocks k ≤ blocks (u.mapped d) + u.free

instance (u : State n) (d : Inum) (k : Nat) : Decidable (u.Fits d k) := inferInstanceAs (Decidable (_ ∨ _))

def State.extended (u : State n) (d : Inum) (k : Nat) : State n :=
  { u with
    mapped := update u.mapped d (max (u.mapped d) k)
    free := u.free - (blocks (max (u.mapped d) k) - blocks (u.mapped d)) }

def State.shortage (u : State n) (d : Inum) : Panic :=
  if blocks MAXFILE ≤ blocks (u.mapped d) + u.free then .bmap else .balloc

theorem blocks_mono {k m : Nat} (le : k ≤ m) : blocks k ≤ blocks m := by
  unfold blocks NDIRECT
  split_ifs <;> omega

variable {k m : Nat}

theorem extended_of_le (le : k ≤ u.mapped d) : u.extended d k = u := by
  unfold State.extended
  rw [max_eq_left le, update_eq_self, Nat.sub_self, Nat.sub_zero]

theorem extended_mapped : (u.extended d k).mapped d = max (u.mapped d) k := update_self ..

theorem extended_total (fits : u.Fits d k) :
    blocks ((u.extended d k).mapped d) + (u.extended d k).free = blocks (u.mapped d) + u.free := by
  rw [extended_mapped]
  unfold State.extended
  dsimp only
  rcases fits with le | ⟨-, enough⟩
  · rw [max_eq_left le]
    omega
  rcases le_total (u.mapped d) k with le | le
  · rw [max_eq_right le]
    have := blocks_mono le
    omega
  · rw [max_eq_left le]
    omega

theorem extended_extended (fits : u.Fits d k) (le : k ≤ m) : (u.extended d k).extended d m = u.extended d m := by
  have mapped : max (max (u.mapped d) k) m = max (u.mapped d) m := by rw [max_assoc, max_eq_right le]
  have total := extended_total fits
  rw [extended_mapped] at total
  have first : blocks (u.mapped d) ≤ blocks (max (u.mapped d) k) := blocks_mono (le_max_left _ _)
  have second : blocks (max (u.mapped d) k) ≤ blocks (max (u.mapped d) m) := blocks_mono (max_le_max_left _ le)
  have free : (u.extended d k).free - (blocks (max (u.mapped d) m) - blocks (max (u.mapped d) k)) =
      u.free - (blocks (max (u.mapped d) m) - blocks (u.mapped d)) := by omega
  have left : (u.extended d k).extended d m =
      { u with
        mapped := update (update u.mapped d (max (u.mapped d) k)) d (max ((u.extended d k).mapped d) m)
        free := (u.extended d k).free - (blocks
          (max ((u.extended d k).mapped d) m) - blocks ((u.extended d k).mapped d)) } := rfl
  rw [left, extended_mapped, mapped, free, update_idem]
  rfl

theorem State.Fits.mono (fits : u.Fits d m) (le : k ≤ m) : u.Fits d k := by
  rcases fits with inside | ⟨small, enough⟩
  · exact .inl (le.trans inside)
  · exact .inr ⟨le.trans small, (blocks_mono le).trans enough⟩

theorem fits_extended (fits : u.Fits d k) (le : k ≤ m) : (u.extended d k).Fits d m ↔ u.Fits d m := by
  unfold State.Fits
  rw [extended_total fits, extended_mapped]
  refine or_congr_left' fun out => ?_
  rw [le_max_iff]
  refine ⟨fun inside => inside.elim id fun _ => ?_, .inl⟩
  have : k = m := by omega
  subst this
  exact fits.elim id fun enough => absurd enough out

theorem shortage_extended (fits : u.Fits d k) : (u.extended d k).shortage d = u.shortage d := by
  unfold State.shortage
  rw [extended_total fits]

theorem balloc_iff :
    Spec balloc u E Q ↔ if u.free = 0 then E (.panic .balloc) else Q () { u with free := u.free - 1 } := by
  unfold balloc
  simp only [spec_bind, spec_get, spec_panicIf, spec_modify]
  split_ifs with none <;> simp [none]

theorem bmap_iff (front : k ≤ u.mapped d) : Spec (bmap d k) u E Q ↔
    if u.Fits d (k + 1) then Q () (u.extended d (k + 1)) else E (.panic (u.shortage d)) := by
  unfold bmap
  simp only [spec_bind, spec_get]
  by_cases inside : k < u.mapped d
  · rw [if_pos inside, if_pos (.inl inside), extended_of_le inside]
    exact Iff.rfl
  have next : u.mapped d = k := by omega
  have more : blocks (k + 1) = blocks k + 1 + if k = NDIRECT then 1 else 0 := blocks_succ k
  have fits : u.Fits d (k + 1) ↔ k + 1 ≤ MAXFILE ∧ blocks (k + 1) ≤ blocks k + u.free := by
    unfold State.Fits
    rw [next]
    simp
  have extended : u.extended d
    (k + 1) = { u with mapped := update u.mapped d (k + 1), free := u.free - (blocks (k + 1) - blocks k) } := by
    unfold State.extended
    rw [next, max_eq_right (Nat.le_succ k)]
  rw [if_neg inside]
  simp only [spec_bind, spec_panicIf, spec_modify]
  by_cases limit : MAXFILE ≤ k
  · have stops : u.shortage d = .bmap := by
      unfold State.shortage
      rw [next, if_pos ((blocks_mono limit).trans (Nat.le_add_right _ _))]
    have full : ¬u.Fits d (k + 1) := by
      rw [fits]
      omega
    rw [if_neg full, stops]
    simp [limit]
  have stops (less : u.free < blocks (k + 1) - blocks k) : ¬u.Fits d (k + 1) ∧ u.shortage d = .balloc := by
    have last : blocks (k + 1) ≤ blocks MAXFILE := blocks_mono (by omega)
    rw [fits]
    refine ⟨by omega, ?_⟩
    unfold State.shortage
    rw [next, if_neg (by omega)]
  simp only [limit, false_implies, true_and, not_false_eq_true, true_implies]
  by_cases indirect : k = NDIRECT
  · have both : NDIRECT ≤ k ∧ u.mapped d ≤ NDIRECT := ⟨indirect.ge, by omega⟩
    rw [if_pos indirect] at more
    rw [if_pos both, balloc_iff]
    by_cases none : u.free = 0
    · rw [if_pos none, if_neg (stops (by omega)).1, (stops (by omega)).2]
    rw [if_neg none, balloc_iff]
    by_cases one : u.free - 1 = 0
    · rw [if_pos one, if_neg (stops (by omega)).1, (stops (by omega)).2]
    rw [if_neg one, if_pos (fits.mpr ⟨by omega, by omega⟩), extended,
      show u.free - (blocks (k + 1) - blocks k) = u.free - 1 - 1 by omega]
  · have direct : ¬(NDIRECT ≤ k ∧ u.mapped d ≤ NDIRECT) := by omega
    rw [if_neg indirect] at more
    rw [if_neg direct, spec_pure, balloc_iff]
    by_cases none : u.free = 0
    · rw [if_pos none, if_neg (stops (by omega)).1, (stops (by omega)).2]
    rw [if_neg none, if_pos (fits.mpr ⟨by omega, by omega⟩), extended,
      show u.free - (blocks (k + 1) - blocks k) = u.free - 1 by omega]

def reach (p : Dirent → Bool) (l : List Dirent) (k : Nat) : Nat :=
  match seek p l k with
  | none => (k + l.length + DPB - 1) / DPB
  | some (off, _) => off / DPB + 1

theorem reach_cons (p : Dirent → Bool) (e : Dirent) (es : List Dirent) (k : Nat) :
    reach p (e :: es) k = if p e then k / DPB + 1 else reach p es (k + 1) := by
  unfold reach
  rw [seek]
  split_ifs
  · rfl
  · rw [List.length_cons, Nat.add_right_comm k 1, ← Nat.add_assoc]

theorem le_reach (p : Dirent → Bool) (l : List Dirent) (k : Nat) : (k + DPB - 1) / DPB ≤ reach p l k := by
  unfold reach
  cases found : seek p l k with
  | none => exact Nat.div_le_div_right (by omega)
  | some =>
    have := (seek_some found).1
    unfold DPB
    dsimp only
    omega

theorem scan_iff {p : Dirent → Bool} {l : List Dirent}
    {Q : Option (Nat × Dirent) → State n → Prop} (front : k ≤ DPB * u.mapped d) :
    Spec (scan d p l k) u E Q ↔
      if u.Fits d (reach p l k) then Q (seek p l k) (u.extended d (reach p l k)) else E (.panic (u.shortage d)) := by
  induction l generalizing k u with
  | nil =>
    have inside : reach p [] k ≤ u.mapped d := by
      change (k + 0 + 32 - 1) / 32 ≤ _
      unfold DPB at front
      omega
    rw [if_pos (.inl inside), extended_of_le inside]
    exact Iff.rfl
  | cons e es ih =>
    rw [scan, spec_bind, bmap_iff (Nat.div_le_of_le_mul front), reach_cons, seek]
    have after : k / DPB + 1 ≤ reach p es (k + 1) := by
      refine le_trans ?_ (le_reach p es (k + 1))
      unfold DPB
      omega
    by_cases here : p e = true
    · rw [if_pos here, if_pos here, if_pos here]
      exact Iff.rfl
    rw [if_neg here, if_neg here, if_neg here]
    by_cases fits : u.Fits d (k / DPB + 1)
    · have next : k + 1 ≤ DPB * (u.extended d (k / DPB + 1)).mapped d := by
        rw [extended_mapped]
        have := le_max_right (u.mapped d) (k / DPB + 1)
        unfold DPB at this ⊢
        omega
      rw [if_pos fits, ih next, extended_extended fits after, shortage_extended fits]
      simp only [fits_extended fits after]
    · rw [if_neg fits, if_neg fun all => fits (all.mono after)]

def depth (x : Dinode) (name : Name) : Nat := reach (Dirent.matches name) x.entries 0

theorem dirlookup_iff {Q : Option (Inum × Nat) → State n → Prop} (dir : (u.inode d).type = .dir) :
    Spec (dirlookup d name) u E Q ↔
      if u.Fits d (depth (u.inode d) name) then
        match lookup (u.inode d) name with
        | none => Q none (u.extended d (depth (u.inode d) name))
        | some (off, e) => Spec (iget e.inum) (u.extended d (depth (u.inode d) name)) E fun i v => Q (some (i, off)) v
      else E (.panic (u.shortage d)) := by
  unfold dirlookup depth
  simp only [spec_bind, spec_getInode, spec_panicIf, dir, ne_eq,
    not_true_eq_false, false_implies, true_and, not_false_eq_true,
    true_implies]
  rw [scan_iff (Nat.zero_le _), lookup]
  split_ifs with fits
  · cases seek (Dirent.matches name) (u.inode d).entries 0 with
    | none => exact Iff.rfl
    | some => simp only [spec_bind, spec_pure]
  · exact Iff.rfl

end Blocks

section Exact

def State.entered (u : State n) (ip : Inum) : State n :=
  { u with locked := update u.locked ip true, valid := update u.valid ip true }

def State.seen (u : State n) (ip : Inum) : State n := { u with valid := update u.valid ip true }

def State.dropped (u : State n) (ip : Inum) : State n :=
  { u with ref := update u.ref ip (u.ref ip - 1), inUse := if u.ref ip = 1 then u.inUse - 1 else u.inUse }

theorem ilock_iff (held : 0 < u.ref ip) (unlocked : u.locked ip = false)
    (loaded : u.valid ip = true → (u.inode ip).type ≠ .none) :
    Spec (ilock ip) u E Q ↔ if (u.inode ip).type = .none then E (.panic .ilockNoType) else Q () (u.entered ip) := by
  unfold ilock acquiresleep
  simp only [spec_bind, spec_get, spec_panicIf]
  have ref : ¬u.ref ip < 1 := by omega
  simp only [ref, unlocked, false_implies, true_and, not_false_eq_true,
    true_implies, Bool.false_eq_true, if_false, spec_modify]
  by_cases invalid : u.valid ip = false
  · simp only [invalid, if_true, spec_bind, spec_set, spec_panicIf]
    split_ifs with free
    · simp [free]
    · simp only [free, false_implies, true_and, not_false_eq_true, true_implies]
      exact Iff.rfl
  have valid : u.valid ip = true := by simpa using invalid
  rw [if_neg invalid, if_neg (loaded valid)]
  have same : u.entered ip = { u with locked := update u.locked ip true } := by
    unfold State.entered
    rw [update_eq_self_iff.mpr valid.symm]
  rw [same]
  exact Iff.rfl

theorem iput_iff (unlocked : u.locked ip = false)
    (kept : ¬(u.valid ip = true ∧ (u.inode ip).nlink = 0 ∧ u.ref ip = 1)) :
    Spec (iput ip) u E Q ↔ Q () (u.dropped ip) := by
  unfold iput acquiresleep releasesleep
  simp only [spec_bind, spec_get, unlocked, Bool.false_eq_true, if_false, spec_modify]
  rw [if_neg kept, spec_pure]
  have same : update (update u.locked ip true) ip false = u.locked := by
    rw [update_idem]
    exact update_eq_self_iff.mpr unlocked.symm
  simp only [same]
  exact Iff.rfl

theorem iunlock_iff (held : 0 < u.ref ip) (locked : u.locked ip = true) :
    Spec (iunlock ip) u E Q ↔ Q () { u with locked := update u.locked ip false } := by
  unfold iunlock releasesleep
  simp only [spec_bind, spec_get, spec_panicIf, spec_modify]
  have fine : ¬(u.locked ip = false ∨ u.ref ip < 1) := by
    rw [locked]
    simp only [Bool.true_eq_false, false_or]
    omega
  simp only [fine, false_implies, true_and, not_false_eq_true, true_implies]

def State.taken (u : State n) (i : Inum) : State n :=
  if 0 < u.ref i then { u with ref := update u.ref i (u.ref i + 1) }
  else { u with ref := update u.ref i 1, valid := update u.valid i false, inUse := u.inUse + 1 }

theorem iget_iff {Q : Inum → State n → Prop} : Spec (iget i) u E Q ↔
    if u.ref i = 0 ∧ NINODE ≤ u.inUse then E (.panic .igetNoInodes) else Q i (u.taken i) := by
  unfold iget State.taken
  simp only [spec_bind, spec_get]
  by_cases held : 0 < u.ref i
  · rw [if_pos held, if_neg fun both => held.ne' both.1, if_pos held]
    exact Iff.rfl
  have none : u.ref i = 0 := by omega
  rw [if_neg held, if_neg held]
  simp only [spec_bind, spec_panicIf, spec_set, spec_pure, none, true_and]
  split_ifs with full
  · simp [full]
  · simp [full]

end Exact

/-- No call is in progress, and process `t` can start one. -/
structure Settled (s : State n) (t : Fin n) : Prop where
  unlocked : ∀ i, s.locked i = false
  cwd : 0 < s.ref (s.proc t).cwd
  loaded : ∀ i, 0 < s.ref i → s.valid i = true → (s.inode i).type ≠ .none
  orphans : ∀ i, (s.inode i).type ≠ .none → (s.inode i).nlink = 0 → 0 < s.ref i

def share (held : Option Inum) (i : Inum) : Nat := if held = some i then 1 else 0

def room (s : State n) : Option Inum → Nat
  | none => 0
  | some i => if s.ref i = 0 then 1 else 0

structure Holding (s : State n) (held : Option Inum) (u : State n) : Prop where
  inode : u.inode = s.inode
  mapped : u.mapped = s.mapped
  free : u.free = s.free
  file : u.file = s.file
  proc : u.proc = s.proc
  locked : u.locked = s.locked
  ref : ∀ i, u.ref i = s.ref i + share held i
  inUse : u.inUse = s.inUse + room s held
  loaded : ∀ i, 0 < u.ref i → u.valid i = true → (s.inode i).type ≠ .none

section Walk
variable {t : Fin n} (settled : Settled s t)
include settled

theorem Holding.refl : Holding s none s where
  inode := rfl
  mapped := rfl
  free := rfl
  file := rfl
  proc := rfl
  locked := rfl
  ref _ := rfl
  inUse := rfl
  loaded := settled.loaded

theorem Holding.kept (holding : Holding s (some ip) u) :
    ¬(u.valid ip = true ∧ (u.inode ip).nlink = 0 ∧ u.ref ip = 1) := by
  rintro ⟨valid, unlinked, _⟩
  have held := holding.ref ip
  rw [share, if_pos rfl] at held
  have isUsed := holding.loaded ip (by omega) valid
  rw [holding.inode] at unlinked
  have := settled.orphans ip isUsed unlinked
  omega

omit settled in
theorem Holding.drop (holding : Holding s (some ip) u) : Holding s none (u.dropped ip) where
  inode := holding.inode
  mapped := holding.mapped
  free := holding.free
  file := holding.file
  proc := holding.proc
  locked := holding.locked
  ref i := by
    have before := holding.ref i
    by_cases this : i = ip
    · subst this
      rw [share, if_pos rfl] at before
      simp [State.dropped, share, before]
    · rw [share, if_neg fun same => this (Option.some.inj same).symm] at before
      simp [State.dropped, share, this, before]
  inUse := by
    have before := holding.inUse
    have mine := holding.ref ip
    rw [share, if_pos rfl] at mine
    unfold State.dropped room
    rw [room] at before
    dsimp only
    split_ifs at before ⊢ <;> omega
  loaded i held valid := by
    refine holding.loaded i ?_ valid
    by_cases this : i = ip
    · subst this
      have mine := holding.ref i
      rw [share, if_pos rfl] at mine
      omega
    · simpa [State.dropped, this] using held

omit settled in
theorem taken_frame (u : State n) (i : Inum) :
    (u.taken i).inode = u.inode ∧ (u.taken i).mapped = u.mapped ∧ (u.taken i).free = u.free ∧
    (u.taken i).file = u.file ∧ (u.taken i).proc = u.proc ∧ (u.taken i).locked = u.locked := by
  unfold State.taken
  split_ifs <;> exact ⟨rfl, rfl, rfl, rfl, rfl, rfl⟩

omit settled in
theorem taken_ref (u : State n) (i j : Inum) : (u.taken i).ref j = u.ref j + if j = i then 1 else 0 := by
  unfold State.taken
  split_ifs with held same same
  · simp [same]
  · simp [same]
  · simp [same]
    omega
  · simp [same]

omit settled in
theorem taken_inUse (u : State n) (i : Inum) : (u.taken i).inUse = u.inUse + if u.ref i = 0 then 1 else 0 := by
  unfold State.taken
  split_ifs <;> first | rfl | omega

omit settled in
theorem taken_valid {j : Inum} (valid : (u.taken i).valid j = true) : u.valid j = true ∧ (j = i → 0 < u.ref i) := by
  unfold State.taken at valid
  split_ifs at valid with held
  · exact ⟨valid, fun _ => held⟩
  by_cases this : j = i
  · subst this
    simp at valid
  · exact ⟨by simpa [this] using valid, fun same => absurd same this⟩

variable (holding : Holding s (some ip) u)
include holding

omit settled in
theorem Holding.move {e : Inum} : Holding s (some e) ((u.taken e).dropped ip) := by
  have mine := holding.ref ip
  rw [share, if_pos rfl] at mine
  have other := holding.ref e
  have count := holding.inUse
  have frame := taken_frame u e
  constructor
  case inode => exact frame.1.trans holding.inode
  case mapped => exact frame.2.1.trans holding.mapped
  case free => exact frame.2.2.1.trans holding.free
  case file => exact frame.2.2.2.1.trans holding.file
  case proc => exact frame.2.2.2.2.1.trans holding.proc
  case locked => exact frame.2.2.2.2.2.trans holding.locked
  case ref =>
    intro i
    have before := holding.ref i
    unfold State.dropped share
    unfold share at before
    simp only [Option.some.injEq] at before ⊢
    rw [update_apply, taken_ref, taken_ref]
    split_ifs at before ⊢ <;> subst_vars <;> first | omega | contradiction
  case inUse =>
    unfold State.dropped
    dsimp only
    rw [taken_ref, taken_inUse]
    unfold room at count ⊢
    unfold share at other
    dsimp only at count ⊢
    simp only [Option.some.injEq] at other
    split_ifs at count other ⊢ <;> subst_vars <;> omega
  case loaded =>
    intro i held valid
    obtain ⟨before, new⟩ := taken_valid valid
    refine holding.loaded i ?_ before
    by_cases this : i = e
    · rw [this]
      exact new this
    by_cases same : i = ip
    · rw [same]
      omega
    have unchanged : ((u.taken e).dropped ip).ref i = u.ref i := by
      unfold State.dropped
      dsimp only
      rw [update_of_ne same, taken_ref, if_neg this, Nat.add_zero]
    rwa [unchanged] at held

omit settled in
theorem Holding.read (isUsed : (s.inode ip).type ≠ .none) : Holding s (some ip) (u.seen ip) :=
  { holding with
    loaded := fun i held valid => by
      by_cases this : i = ip
      · rwa [this]
      · exact holding.loaded i held (by simpa [State.seen, this] using valid) }

theorem Holding.unlocked (i : Inum) : u.locked i = false := by
  rw [holding.locked, settled.unlocked]

omit settled in
theorem Holding.held : 0 < u.ref ip := by
  rw [holding.ref, share, if_pos rfl]
  exact Nat.succ_pos _

theorem ilock_holding :
    Spec (ilock ip) u E Q ↔ if (s.inode ip).type = .none then E (.panic .ilockNoType) else Q () (u.entered ip) := by
  rw [ilock_iff holding.held (holding.unlocked settled ip), holding.inode]
  rw [holding.inode]
  exact holding.loaded ip holding.held

omit settled holding in
theorem relock (unlocked : u.locked ip = false) : update (update u.locked ip true) ip false = u.locked := by
  rw [update_idem]
  exact update_eq_self_iff.mpr unlocked.symm

theorem iunlock_entered :
    Spec (iunlock ip) (u.entered ip) E Q ↔ Q () (u.seen ip) := by
  have locked : (u.entered ip).locked ip = true := update_self ..
  have same : update (u.entered ip).locked ip false = u.locked := relock (holding.unlocked settled ip)
  rw [iunlock_iff (show 0 < (u.entered ip).ref ip from holding.held) locked, same]
  exact Iff.rfl

theorem iunlockput_entered (isUsed : (s.inode ip).type ≠ .none) :
    Spec (iunlockput ip) (u.entered ip) E Q ↔ Q () ((u.seen ip).dropped ip) := by
  have read := holding.read isUsed
  unfold iunlockput
  rw [spec_bind, iunlock_entered settled holding, iput_iff (read.unlocked settled ip) (read.kept settled)]

theorem iunlockput_taken {e : Inum} (isUsed : (s.inode ip).type ≠ .none) :
    Spec (iunlockput ip) ((u.entered ip).taken e) E Q ↔ Q () (((u.seen ip).taken e).dropped ip) := by
  have read := holding.read isUsed
  set w : State n := (u.seen ip) with isW
  have frame : ((u.entered ip).taken e).locked = update u.locked ip true ∧
    (w.taken e).inode = w.inode ∧ (w.taken e).locked = u.locked := by
    unfold State.taken
    split_ifs <;> exact ⟨rfl, rfl, rfl⟩
  have same : { (u.entered ip).taken e with locked := u.locked } = w.taken e := by
    unfold State.taken
    have ref : (u.entered ip).ref = w.ref := rfl
    rw [ref]
    split_ifs <;> rfl
  have held : 0 < ((u.entered ip).taken e).ref ip := by
    rw [taken_ref]
    exact Nat.add_pos_left holding.held _
  unfold iunlockput
  rw [spec_bind, iunlock_iff held (by rw [frame.1, update_self]),
    frame.1, relock (holding.unlocked settled ip), same, iput_iff]
  · rw [frame.2.2]
    exact holding.unlocked settled ip
  rintro ⟨valid, unlinked, last⟩
  rw [taken_ref] at last
  rw [frame.2.1] at unlinked
  have := read.held
  exact read.kept settled ⟨(taken_valid valid).1, unlinked, by omega⟩

end Walk

section Fold

def into (T : Table) (d : Inum) (name : Name) : Option Inum :=
  if (T d).type = .dir then (lookup (T d) name).map fun found => found.2.inum else none

def follow (T : Table) (nameiparent : Bool) : Inum → Name → List Name → Option (Inum × Name)
  | d, last, [] => if nameiparent then none else some (d, last)
  | d, _, name :: rest =>
    if (T d).type = .dir ∧ nameiparent = true ∧ rest = [] then some (d, name)
    else (into T d name).bind fun e => follow T nameiparent e name rest

def parentOf (T : Table) (d : Inum) (names : List Name) : Option (Inum × Name) := do
  let last ← names.getLast?
  let parent ← names.dropLast.foldlM (into T) d
  if (T parent).type = .dir then return (parent, last) else none

theorem follow_false (T : Table) (d : Inum) (last : Name) (names : List Name) :
    (follow T false d last names).map Prod.fst = names.foldlM (into T) d := by
  induction names generalizing d last with
  | nil => rfl
  | cons name _ ih =>
    rw [follow, if_neg (by simp), List.foldlM_cons, Option.map_bind]
    exact Option.bind_congr fun e _ => ih e name

theorem follow_true (T : Table) (d : Inum) (last : Name) (names : List Name) :
    follow T true d last names = parentOf T d names := by
  induction names generalizing d last with
  | nil => rfl
  | cons _ rest ih =>
    rw [follow]
    cases rest with
    | nil =>
      by_cases dir : (T d).type = .dir
      · rw [if_pos ⟨dir, rfl, rfl⟩]
        simp [parentOf, dir]
      · rw [if_neg fun both => dir both.1, into, if_neg dir]
        simp [parentOf, dir]
    | cons next rest =>
      rw [if_neg (by simp)]
      obtain ⟨final, isFinal⟩ : ∃ final, (next :: rest).getLast? = some final := ⟨_, List.getLast?_cons⟩
      unfold parentOf
      rw [List.getLast?_cons_cons, List.dropLast_cons_cons, isFinal, List.foldlM_cons]
      simp only [ih, parentOf, isFinal, Option.bind_eq_bind, Option.bind_some, Option.bind_assoc]

def Passable (nameiparent : Bool) : State n → Inum → List Name → Prop
  | _, _, [] => True
  | s, d, name :: rest => (s.inode d).type ≠ .none ∧ ((s.inode d).type = .dir → ¬(nameiparent = true ∧ rest = []) →
      s.Fits d (depth (s.inode d) name) ∧ ∀ off e, lookup (s.inode d) name = some (off, e) →
        (0 < s.ref e.inum ∨ e.inum = d ∨ s.inUse + room s (some d) < NINODE) ∧
          Passable nameiparent (s.extended d (depth (s.inode d) name)) e.inum rest)

theorem Settled.extended {t : Fin n} {k : Nat} (settled : Settled s t) : Settled (s.extended d k) t :=
  ⟨settled.unlocked, settled.cwd, settled.loaded, settled.orphans⟩

theorem Holding.extended {k : Nat} {held : Option Inum} (holding : Holding s held u) :
    Holding (s.extended d k) held (u.extended d k) :=
  { holding with
    mapped := by
      unfold State.extended
      rw [holding.mapped]
    free := by
      unfold State.extended
      rw [holding.mapped, holding.free]
    inUse := holding.inUse }

variable {t : Fin n} (settled : Settled s t)
include settled

theorem namexEnd_holding {par : Bool} (holding : Holding s (some ip) u) :
    Spec (namexFrom.namexEnd par ip name) u (fun _ => False) fun r v =>
      r = follow s.inode par ip name [] ∧ Holding s (r.map Prod.fst) v := by
  unfold namexFrom.namexEnd follow
  split_ifs
  · simp only [spec_bind]
    rw [iput_iff (holding.unlocked settled ip) (holding.kept settled)]
    exact ⟨rfl, holding.drop⟩
  · exact ⟨rfl, holding⟩

omit settled in
theorem iget_holding {Q : Inum → State n → Prop} {e : Inum} (holding : Holding s (some ip) u) :
    Spec (iget e) (u.entered ip) E Q ↔
    if 0 < s.ref e ∨ e = ip ∨
    s.inUse + room s (some ip) < NINODE then Q e ((u.entered ip).taken e) else E (.panic .igetNoInodes) := by
  have ref : (u.entered ip).ref e = s.ref e + share (some ip) e := holding.ref e
  have inUse : (u.entered ip).inUse = s.inUse + room s (some ip) := holding.inUse
  have mine : share (some ip) e = 0 ↔ e ≠ ip := by
    unfold share
    split_ifs with same
    · exact ⟨nofun, fun ne => absurd (Option.some.inj same).symm ne⟩
    · exact ⟨fun _ equal => same (congrArg some equal.symm), fun _ => rfl⟩
  rw [iget_iff, ref, inUse]
  by_cases room : 0 < s.ref e ∨ e = ip ∨ s.inUse + room s (some ip) < NINODE
  · rw [if_pos room, if_neg]
    rintro ⟨_, _⟩
    rcases room with held | same | small
    · omega
    · exact mine.mp (by omega) same
    · omega
  · rw [if_neg room, if_pos]
    simp only [not_or, not_lt] at room
    exact ⟨by rw [mine.mpr room.2.1]; omega, room.2.2⟩

theorem namexFrom_iff {par : Bool} {fuel : Nat} {Q : Option (Inum × Name) → State n → Prop} {name' : Name}
    (next : skipelem path = some (name', rest)) (holding : Holding s (some ip) u) :
    Spec (namexFrom par (fuel + 1) ip name path) u E Q ↔
      if (s.inode ip).type = .none then E (.panic .ilockNoType)
      else if (s.inode ip).type ≠ .dir then Q none ((u.seen ip).dropped ip)
      else if par = true ∧ rest = [] then Q (some (ip, name')) (u.seen ip)
      else if s.Fits ip (depth (s.inode ip) name') then
        match lookup (s.inode ip) name' with
        | none => Q none (((u.extended ip (depth (s.inode ip) name')).seen ip).dropped ip)
        | some (_, e) =>
          if 0 < s.ref e.inum ∨ e.inum = ip ∨ s.inUse + room s (some ip) < NINODE then
            Spec (namexFrom par fuel e.inum name' rest)
              ((((u.extended ip (depth (s.inode ip) name')).seen ip).taken e.inum).dropped ip) E Q
          else E (.panic .igetNoInodes)
      else E (.panic (s.shortage ip)) := by
  have inode : (u.entered ip).inode = s.inode := holding.inode
  have fits (k : Nat) : (u.entered ip).Fits ip k ↔ s.Fits ip k := by
    unfold State.Fits
    rw [← holding.mapped, ← holding.free]
    exact Iff.rfl
  have shortage : (u.entered ip).shortage ip = s.shortage ip := by
    unfold State.shortage
    rw [← holding.mapped, ← holding.free]
    rfl
  rw [namexFrom, next]
  simp only [spec_bind]
  rw [ilock_holding settled holding]
  by_cases isUsed : (s.inode ip).type = .none
  · rw [if_pos isUsed, if_pos isUsed]
  rw [if_neg isUsed, if_neg isUsed, spec_getInode, inode]
  by_cases notDir : (s.inode ip).type ≠ .dir
  · rw [if_pos notDir, if_pos notDir, spec_bind, iunlockput_entered settled holding isUsed]
    exact Iff.rfl
  rw [if_neg notDir, if_neg notDir]
  by_cases isLast : par = true ∧ rest = []
  · rw [if_pos isLast, if_pos isLast, spec_bind, iunlock_entered settled holding]
    exact Iff.rfl
  have dir : (s.inode ip).type = .dir := not_not.mp notDir
  rw [if_neg isLast, if_neg isLast, spec_bind, dirlookup_iff (by rw [inode]; exact dir), inode, shortage]
  simp only [fits]
  by_cases hole : s.Fits ip (depth (s.inode ip) name')
  · rw [if_pos hole, if_pos hole]
    have later : Holding (s.extended ip (depth (s.inode ip) name')) (some ip)
      (u.extended ip (depth (s.inode ip) name')) := holding.extended
    cases lookup (s.inode ip) name' with
    | none =>
      dsimp only
      rw [spec_bind]
      exact iunlockput_entered settled.extended later isUsed
    | some found =>
      dsimp only
      have cache := @iget_holding _ _ _ E _
        (fun i v => Spec (do iunlockput ip; namexFrom par fuel i name' rest) v E Q) found.2.inum later
      refine cache.trans ?_
      by_cases cached : 0 < s.ref found.2.inum ∨ found.2.inum = ip ∨ s.inUse + room s (some ip) < NINODE
      · refine Iff.trans (iff_of_eq (if_pos cached)) ?_
        rw [if_pos cached, spec_bind, iunlockput_taken settled.extended later isUsed]
      · refine Iff.trans (iff_of_eq (if_neg cached)) ?_
        rw [if_neg cached]
  · rw [if_neg hole, if_neg hole]

omit settled in
theorem namexFrom_holding {par : Bool} {fuel : Nat} (settled : Settled s t)
    (enough : path.length ≤ fuel) (holding : Holding s (some ip) u) :
    (Passable par s ip (components path) → Spec (namexFrom par fuel ip name path) u (fun _ => False) fun r v =>
      r = follow s.inode par ip name (components path) ∧
        ∃ mapped free, Holding { s with mapped := mapped, free := free } (r.map Prod.fst) v) ∧
    (¬Passable par s ip (components path) →
      Spec (namexFrom par fuel ip name path) u (fun _ => True) fun _ _ => False) := by
  have ends {s u : State n} {ip : Inum} {name : Name} (settled : Settled s t) (holding : Holding s (some ip) u) :
      Spec (namexFrom.namexEnd par ip name) u (fun _ => False) fun r v => r = follow s.inode par ip name [] ∧
        ∃ mapped free, Holding { s with mapped := mapped, free := free } (r.map Prod.fst) v :=
    (namexEnd_holding settled holding).mono fun r v both => ⟨both.1, _, _, both.2⟩
  induction fuel generalizing s ip name path u with
  | zero =>
    obtain rfl : path = [] := List.eq_nil_of_length_eq_zero (Nat.le_zero.mp enough)
    exact ⟨fun _ => ends settled holding, fun no => absurd trivial no⟩
  | succ _ ih =>
    cases next : skipelem path with
    | none =>
      rw [namexFrom, next, skipelem_none next]
      exact ⟨fun _ => ends settled holding, fun no => absurd trivial no⟩
    | some found =>
      obtain ⟨name', rest⟩ := found
      obtain ⟨comps, _, noSlash⟩ := skipelem_some next
      have last : rest = [] ↔ components rest = [] := components_eq_nil noSlash
      rw [comps, Passable, follow, namexFrom_iff settled next holding, namexFrom_iff settled next holding]
      by_cases isUsed : (s.inode ip).type = .none
      · rw [if_pos isUsed, if_pos isUsed]
        exact ⟨fun passable => absurd isUsed passable.1, fun _ => trivial⟩
      rw [if_neg isUsed, if_neg isUsed]
      by_cases notDir : (s.inode ip).type ≠ .dir
      · rw [if_pos notDir, if_pos notDir, if_neg fun both => notDir both.1, into, if_neg notDir]
        exact ⟨fun _ => ⟨rfl, _, _, (holding.read isUsed).drop⟩,
          fun no => absurd ⟨isUsed, fun dir => absurd dir notDir⟩ no⟩
      have dir : (s.inode ip).type = .dir := not_not.mp notDir
      rw [if_neg notDir, if_neg notDir]
      by_cases isLast : par = true ∧ rest = []
      · rw [if_pos isLast, if_pos isLast, if_pos ⟨dir, isLast.1, last.mp isLast.2⟩]
        refine ⟨fun _ => ⟨rfl, _, _, holding.read isUsed⟩, fun no => absurd ⟨isUsed, fun _ notLast => ?_⟩ no⟩
        exact absurd ⟨isLast.1, last.mp isLast.2⟩ notLast
      have goesOn : ¬(par = true ∧ components rest = []) := fun both => isLast ⟨both.1, last.mpr both.2⟩
      have further : ¬((s.inode ip).type = .dir ∧ par = true ∧ components rest = []) := fun both => goesOn both.2
      rw [if_neg isLast, if_neg isLast, if_neg further, into, if_pos dir]
      by_cases hole : s.Fits ip (depth (s.inode ip) name')
      · rw [if_pos hole, if_pos hole]
        have later : Holding (s.extended ip (depth (s.inode ip) name'))
          (some ip) (u.extended ip (depth (s.inode ip) name')) :=
          holding.extended
        have read := later.read isUsed
        cases lookup (s.inode ip) name' with
        | none =>
          exact ⟨fun _ => ⟨rfl, _, _, read.drop⟩, fun no => absurd ⟨isUsed, fun _ _ => ⟨hole, by rintro _ _ ⟨⟩⟩⟩ no⟩
        | some found =>
          obtain ⟨off, e⟩ := found
          have moved : Holding (s.extended ip (depth (s.inode ip) name')) (some e.inum) _ := read.move
          obtain ⟨passes, stops⟩ := @ih _ _ e.inum name' rest settled.extended (by omega) moved
          dsimp only
          by_cases cached : 0 < s.ref e.inum ∨ e.inum = ip ∨ s.inUse + room s (some ip) < NINODE
          · rw [if_pos cached, if_pos cached]
            refine ⟨fun passable => passes ((passable.2 dir goesOn).2 off e rfl).2, fun no => stops fun rest => no ?_⟩
            refine ⟨isUsed, fun _ _ => ⟨hole, fun _ _ found => ?_⟩⟩
            cases found
            exact ⟨cached, rest⟩
          · rw [if_neg cached, if_neg cached]
            exact ⟨fun passable => cached ((passable.2 dir goesOn).2 off e rfl).1, fun _ => trivial⟩
      · rw [if_neg hole, if_neg hole]
        exact ⟨fun passable => hole (passable.2 dir goesOn).1, fun _ => trivial⟩

omit settled in
theorem Holding.take (holding : Holding s none u) : Holding s (some i) (u.taken i) := by
  have frame := taken_frame u i
  constructor
  case inode => exact frame.1.trans holding.inode
  case mapped => exact frame.2.1.trans holding.mapped
  case free => exact frame.2.2.1.trans holding.free
  case file => exact frame.2.2.2.1.trans holding.file
  case proc => exact frame.2.2.2.2.1.trans holding.proc
  case locked => exact frame.2.2.2.2.2.trans holding.locked
  case ref =>
    intro j
    rw [taken_ref, holding.ref]
    simp [share, eq_comm]
  case inUse =>
    rw [taken_inUse, holding.inUse, holding.ref]
    simp [share, room]
  case loaded =>
    intro j held valid
    obtain ⟨before, new⟩ := taken_valid valid
    refine holding.loaded j ?_ before
    by_cases this : j = i
    · rw [this]
      exact new this
    · rwa [taken_ref, if_neg this] at held

def Starts (s : State n) (path : Path) : Prop := path.head? = some slash → 0 < s.ref ROOTINO ∨ s.inUse < NINODE

theorem namexStart_iff {Q : Inum → State n → Prop} : Spec (namexStart t path) s E Q ↔
    (Starts s path → Q (origin s t path) (s.taken (origin s t path))) ∧
    (¬Starts s path → E (.panic .igetNoInodes)) := by
  unfold namexStart origin Starts
  by_cases absolute : path.head? = some slash
  · rw [if_pos absolute, if_pos absolute, iget_iff]
    simp only [absolute, true_implies]
    split_ifs with full
    · have : ¬(0 < s.ref ROOTINO ∨ s.inUse < NINODE) := by omega
      simp only [this, false_implies, not_false_eq_true, true_implies, true_and]
    · have : 0 < s.ref ROOTINO ∨ s.inUse < NINODE := by omega
      simp only [this, true_implies, not_true_eq_false, false_implies, and_true]
  · have taken : s.taken (s.proc t).cwd = { s with ref := update s.ref (s.proc t).cwd (s.ref (s.proc t).cwd + 1) } := by
      rw [State.taken, if_pos settled.cwd]
    rw [if_neg absolute, if_neg absolute, taken]
    unfold idup
    simp only [spec_bind, spec_get, spec_modify, spec_pure, absolute,
      false_implies, true_implies, not_true_eq_false, and_true]

def Clear (s : State n) (t : Fin n) (nameiparent : Bool) (path : Path) : Prop :=
  Starts s path ∧ Passable nameiparent s (origin s t path) (components path)

theorem namex_settled (par : Bool) (path : Path) :
    (Clear s t par path → Spec (namex t path par) s (fun _ => False) fun r v =>
      r = follow s.inode par (origin s t path) [] (components path) ∧
        ∃ mapped free, Holding { s with mapped := mapped, free := free } (r.map Prod.fst) v) ∧
    (¬Clear s t par path → Spec (namex t path par) s (fun _ => True) fun _ _ => False) := by
  unfold namex
  rw [spec_bind, spec_bind, namexStart_iff settled, namexStart_iff settled]
  obtain ⟨passes, stops⟩ :=
    @namexFrom_holding _ _ _ _ [] path t par path.length settled le_rfl (Holding.refl settled).take
  refine ⟨fun clear => ⟨fun _ => passes clear.2, fun no => absurd clear.1 no⟩,
    fun no => ⟨fun starts => ?_, fun _ => trivial⟩⟩
  exact stops fun passable => no ⟨starts, passable⟩

omit settled in
/-- No lock is held, and the only new reference is to the inode that is returned. -/
structure Returned (s : State n) (result : Option Inum) (u : State n) : Prop where
  inode : u.inode = s.inode
  file : u.file = s.file
  proc : u.proc = s.proc
  locked : u.locked = s.locked
  ref : ∀ i, u.ref i = s.ref i + share result i

omit settled in
theorem Holding.returned {held : Option Inum} {mapped : Inum → Nat} {free : Nat}
    (holding : Holding { s with mapped := mapped, free := free } held u) : Returned s held u :=
  ⟨holding.inode, holding.file, holding.proc, holding.locked, holding.ref⟩

theorem path_resolution (path : Path) :
    ((∃ u, namei t path s = .ok ((components path).foldlM (into s.inode) (origin s t path), u) ∧
        Returned s ((components path).foldlM (into s.inode) (origin s t path)) u) ↔ Clear s t false path) ∧
      ((∃ u, nameiparent t path s = .ok (parentOf s.inode (origin s t path) (components path), u) ∧
        Returned s ((parentOf s.inode (origin s t path) (components path)).map Prod.fst) u) ↔ Clear s t true path) := by
  obtain ⟨finds, stops⟩ := namex_settled settled false path
  obtain ⟨findsParent, stopsParent⟩ := namex_settled settled true path
  constructor
  · apply exists_ok_iff
    · intro clear
      rw [namei, spec_bind]
      refine (finds clear).mono fun r u ⟨result, _, _, after⟩ => ?_
      rw [← follow_false s.inode (origin s t path) [], ← result]
      exact ⟨rfl, after.returned⟩
    · intro blocked
      rw [namei, spec_bind]
      exact (stops blocked).mono fun _ _ none => none
  · apply exists_ok_iff
    · intro clear
      refine (findsParent clear).mono fun r u ⟨result, _, _, after⟩ => ?_
      rw [← follow_true s.inode (origin s t path) [], ← result]
      exact ⟨rfl, after.returned⟩
    · exact stopsParent

end Fold

def parentName : Path := dotdot ++ slash :: nameA

instance (s : State n) (t : Fin n) : Decidable (Settled s t) :=
  decidable_of_iff
    ((∀ i, s.locked i = false) ∧ 0 < s.ref (s.proc t).cwd ∧
      (∀ i, 0 < s.ref i → s.valid i = true → (s.inode i).type ≠ .none) ∧
      ∀ i, (s.inode i).type ≠ .none → (s.inode i).nlink = 0 → 0 < s.ref i)
    ⟨fun ⟨unlocked, cwd, loaded, orphans⟩ => ⟨unlocked, cwd, loaded, orphans⟩,
      fun ⟨unlocked, cwd, loaded, orphans⟩ => ⟨unlocked, cwd, loaded, orphans⟩⟩

/-- The parent of the current directory is gone, and has no entries, but `namei` stops at it. -/
theorem namei_removed_parent : ∃ s : State 1, exec (step 0) (boot 0 (mkfs [])) parentRemoved = some s ∧ Settled s 0 ∧
    (components parentName).foldlM (into s.inode) (origin s 0 parentName) = none ∧
    namei 0 parentName s = .error (.panic .ilockNoType) := by
  decide +kernel

instance decidablePassable (par : Bool) : (s : State n) → (d : Inum) → (l : List Name) → Decidable (Passable par s d l)
  | _, _, [] => isTrue trivial
  | s, d, name :: rest =>
    have next : Decidable (∀ off e, lookup (s.inode d) name = some (off, e) →
        (0 < s.ref e.inum ∨ e.inum = d ∨ s.inUse + room s (some d) < NINODE) ∧
          Passable par (s.extended d (depth (s.inode d) name)) e.inum rest) :=
      match found : lookup (s.inode d) name with
      | none => isTrue nofun
      | some (off, e) =>
        have := decidablePassable par (s.extended d (depth (s.inode d) name)) e.inum rest
        decidable_of_iff ((0 < s.ref e.inum ∨ e.inum = d ∨ s.inUse + room s (some d) < NINODE) ∧
            Passable par (s.extended d (depth (s.inode d) name)) e.inum rest)
          ⟨fun all _ _ same => by cases same; exact all, fun all => all off e rfl⟩
    inferInstanceAs (Decidable (_ ∧ (_ → _ → _ ∧ _)))

instance (s : State n) (t : Fin n) (par : Bool) (path : Path) : Decidable (Clear s t par path) :=
  inferInstanceAs (Decidable ((_ → _) ∧ _))

/-- `/a/b/../b` -/
def roundabout : Path := slash :: nameA ++ slash :: nameB ++ slash :: dotdot ++ slash :: nameB

theorem path_resolution_roundabout : ∃ s : State 1,
    exec (step 0) (boot 0 (mkfs [])) [(0, .mkdir nameA), (0, .mkdir (nameA ++ slash :: nameB))] = some s ∧
    ∃ u, namei 0 roundabout s = .ok (some 3, u) ∧ Returned s (some 3) u := by
  obtain ⟨s, run, settled, clear, leads⟩ : ∃ s : State 1,
      exec (step 0) (boot 0 (mkfs [])) [(0, .mkdir nameA), (0, .mkdir (nameA ++ slash :: nameB))] = some s ∧
      Settled s 0 ∧
      Clear s 0 false roundabout ∧ (components roundabout).foldlM (into s.inode) (origin s 0 roundabout) = some 3 := by
    decide +kernel
  obtain ⟨u, found, returned⟩ := (path_resolution settled roundabout).1.mpr clear
  rw [leads] at found returned
  exact ⟨s, run, u, found, returned⟩

end Xv6.Namespace
