import Xv6.Proof.Pages

namespace Xv6.Vm
open Xv6.Library
open Function (update update_self update_of_ne)

variable {link : Link} {m m₀ : Mem} {d f g i u v lo pte newsz oldsz flags : Nat}
    {x : Dir} {E : Stop → Prop} {o h P : Multiset Frame}

section Mapping

theorem walk_spec (stage : Stage P m₀ d (own lo (m.dir d) + h) m) (small : v < 2 ^ 20) {Q : Option Nat → Mem → Prop}
    (dry : ∀ m', Stage P m₀ d (own lo (m'.dir d) + h) m' → m'.dir = m.dir → m'.page = m.page → Dry m₀ m' → Q none m')
    (found : ∀ m', Stage P m₀ d (own lo (m'.dir d) + h) m' → (m'.dir d (v / NPTENTRIES)).isSome →
      (∀ u, (m'.dir d).pte u = (m.dir d).pte u) → m'.page = m.page → m'.free ⊆ m.free → Q (some v) m') :
    Spec (walkpgdir d (v * PGSIZE) true) m E Q := by
  rw [walkpgdir, spec_bind, spec_get, walk_page small, PDX_page small]
  dsimp only
  cases table : m.dir d (v / NPTENTRIES) with
  | some t => exact found m stage (by rw [table]; rfl) (fun _ => rfl) rfl (List.Subset.refl _)
  | none =>
    refine spec_bind.mpr (kalloc_spec (fun none => ?_) fun f free first => ?_)
    · exact dry _ stage.wait rfl rfl fun calm => none (stage.calm calm)
    have block : v / NPTENTRIES < NPDENTRIES := by
      simp only [NPTENTRIES, NPDENTRIES]
      omega
    refine found _ ?_ ?_ (fun u => ?_) rfl ?_
    · show Stage P m₀ d (own lo (update m.dir d _ d) + h) _
      rw [update_self, own_table table block, Multiset.cons_add]
      exact (stage.take first).turn _
    · show (update m.dir d _ d _).isSome
      rw [update_self, update_self]
      rfl
    · show (update m.dir d _ d).pte u = _
      rw [update_self, Dir.pte_table table]
    · rw [first]
      exact List.subset_cons_self f free

theorem present_or (pte : Nat) : present (pte ||| PTE_P) := by
  intro zero
  rw [Nat.and_or_distrib_right] at zero
  exact absurd (Nat.or_eq_zero_iff.mp zero).2 (by decide)

def Mem.put (m : Mem) (d v pte : Nat) : Mem := { m with dir := update m.dir d ((m.dir d).setPte v pte) }

theorem pte_put (table : (m.dir d (v / NPTENTRIES)).isSome) :
    ((m.put d v pte).dir d).pte u = if u = v then pte else (m.dir d).pte u := by
  show (update m.dir d _ d).pte u = _
  rw [update_self, Dir.pte_setPte table]

theorem mapFrom_step (stage : Stage P m₀ d (own lo (m.dir d) + h) m)
    (small : v < 2 ^ 20) (clear : ¬present ((m.dir d).pte v))
    {last pa n : Nat} {Q : Bool → Mem → Prop} (fails : ∀ m', Stage P m₀ d (own lo (m'.dir d) + h) m' →
      (∀ u, (m'.dir d).pte u = (m.dir d).pte u) → m'.page = m.page → Dry m₀ m' → Q false m')
    (sets : ∀ m', Stage P m₀ d (own lo (m'.dir d) + h) m' → (m'.dir d (v / NPTENTRIES)).isSome →
      (∀ u, (m'.dir d).pte u = (m.dir d).pte u) → m'.page = m.page → m'.free ⊆ m.free →
        Spec (if v * PGSIZE = last then pure true else mapFrom d last flags n
          (uint (v * PGSIZE + PGSIZE)) (uint (pa + PGSIZE)))
          (m'.put d v (pa ||| flags ||| PTE_P)) E Q) : Spec (mapFrom d last flags (n + 1) (v * PGSIZE) pa) m E Q := by
  rw [mapFrom, spec_bind]
  refine walk_spec stage small (fun m' stage dir page dry => ?_) fun m' stage table same page free => ?_
  · exact fails m' stage (fun u => by rw [dir]) page dry
  · rw [spec_bind, getPte, spec_bind, spec_get, spec_pure, same, panicIf, if_neg clear]
    exact sets m' stage table same page free

theorem mappages_user (small : v < NUSER) (low : lo ≤ v) (perm : flags < PGSIZE)
    (stage : Stage P m₀ d (own lo (m.dir d) + f ::ₘ h) m) (clear : ¬present ((m.dir d).pte v)) {Q : Bool → Mem → Prop}
    (fails : ∀ m', Stage P m₀ d (own lo (m'.dir d) + f ::ₘ h) m' → (∀ u, (m'.dir d).pte u = (m.dir d).pte u) →
      m'.page = m.page → Dry m₀ m' → Q false m')
    (maps : ∀ m', Stage P m₀ d (own lo (m'.dir d) + h) m' →
      (∀ u, (m'.dir d).pte u = if u = v then f * PGSIZE + (flags ||| PTE_P) else (m.dir d).pte u) → m'.page = m.page →
        m'.free ⊆ m.free → Q true m') : Spec (mappages d (v * PGSIZE) PGSIZE (f * PGSIZE) flags) m E Q := by
  have limit : NUSER = 2 ^ 19 := rfl
  have first : PGROUNDDOWN (v * PGSIZE) = v * PGSIZE := by
    simp only [PGROUNDDOWN, PGSIZE]
    omega
  have last : PGROUNDDOWN (uint (v * PGSIZE + PGSIZE + 2 ^ 32 - 1)) = v * PGSIZE := by
    simp only [PGROUNDDOWN, uint, PGSIZE]
    omega
  rw [mappages, first, last, show NPDENTRIES * NPTENTRIES = 1048575 + 1 from rfl]
  refine mapFrom_step stage (by omega) clear fails fun m' stage table same page free => ?_
  rw [if_pos rfl, spec_pure, Nat.or_assoc, or_flags f (or_present perm)]
  have tail := or_present perm
  have whole : frame (f * PGSIZE + (flags ||| PTE_P)) = f := by
    simp only [frame, PGSIZE] at tail ⊢
    omega
  have there : present (f * PGSIZE + (flags ||| PTE_P)) := by
    rw [← or_flags f tail, ← Nat.or_assoc]
    exact present_or _
  refine maps _ ?_ (fun u => by rw [pte_put table, same]) page free
  have mine := own_map table low small (by rw [same]; exact clear) there
  rw [whole] at mine
  show Stage P m₀ d (own lo (update m'.dir d _ d) + h) _
  rw [update_self, mine, Multiset.cons_add, ← Multiset.add_cons]
  exact stage.turn _

end Mapping

section Growth

structure Filled (what : Nat → Nat × Bytes) (m : Mem) (d lo hi : Nat) (m' : Mem) : Prop where
  outside : ∀ u, u < lo ∨ hi ≤ u → (m'.dir d).pte u = (m.dir d).pte u
  inside : ∀ u, lo ≤ u → u < hi → ∃ f, (m'.dir d).pte u = f * PGSIZE + (what u).1 ∧ m'.page f = (what u).2
  page : ∀ g ∉ m.free, m'.page g = m.page g

structure Placed (what : Nat × Bytes) (m : Mem) (d v : Nat) (f : Frame) (m' : Mem) : Prop where
  pte : ∀ u, (m'.dir d).pte u = if u = v then f * PGSIZE + what.1 else (m.dir d).pte u
  page : m'.page = update m.page f what.2
  free : ∀ g, g = f ∨ g ∈ m'.free → g ∈ m.free
  fresh : f ∉ m'.free

theorem Filled.cons {what : Nat → Nat × Bytes} {hi : Nat}
    {m' m'' : Mem} (more : v < hi) (placed : Placed (what v) m d v f m')
    (filled : Filled what m' d (v + 1) hi m'') : Filled what m d v hi m'' := by
  refine ⟨fun u _ => ?_, fun u low high => ?_, fun g outside => ?_⟩
  · rw [filled.outside u (by omega), placed.pte, if_neg (by omega)]
  · obtain rfl | later := Nat.eq_or_lt_of_le low
    · refine ⟨f, ?_, ?_⟩
      · rw [filled.outside v (by omega), placed.pte, if_pos rfl]
      · rw [filled.page f placed.fresh, placed.page, update_self]
    · exact filled.inside u later high
  · rw [filled.page g fun member => outside (placed.free g (.inr member)), placed.page]
    exact update_of_ne (fun same => outside (placed.free g (.inl same))) _ _

def blank (_ : Nat) : Nat × Bytes := (7, fun _ => 0)

structure Bare (m : Mem) (d lo hi : Nat) (m' : Mem) : Prop where
  outside : ∀ u, u < lo ∨ hi ≤ u → (m'.dir d).pte u = (m.dir d).pte u
  inside : ∀ u, lo ≤ u → u < hi → ¬present ((m'.dir d).pte u)

theorem tables_card (x : Dir) : (tables 0 x).card ≤ NPDENTRIES := by
  unfold tables
  rw [Multiset.card_sum]
  refine (Finset.sum_le_card_nsmul _ _ 1 fun j _ => ?_).trans (by simp)
  cases x j <;> simp [Table.owned]

theorem users_card {hi : Nat} (above : ∀ u, hi ≤ u → u < NUSER → ¬present (x.pte u)) : (users lo x).card ≤ hi := by
  have few : ∀ u ∈ Finset.Ico lo NUSER, (mapped (x.pte u)).card ≤ if u < hi then 1 else 0 := fun u inside => by
    unfold mapped
    by_cases low : u < hi
    · split_ifs <;> simp
    · rw [if_neg (above u (Nat.not_lt.mp low) (Finset.mem_Ico.mp inside).2), if_neg low]
      rfl
  unfold users
  rw [Multiset.card_sum]
  refine (Finset.sum_le_sum few).trans ?_
  rw [Finset.sum_ite, Finset.sum_const_zero, add_zero, Finset.sum_const, smul_eq_mul, Nat.mul_one]
  refine (Finset.card_le_card fun u inside => ?_).trans (Finset.card_range hi).le
  exact Finset.mem_range.mpr (Finset.mem_filter.mp inside).2

theorem Stage.tight {hi : Nat} (stage : Stage P m₀ d (own lo (m.dir d) + h) m) (empty : m.free = [])
    (above : ∀ u, hi ≤ u → u < NUSER → ¬present ((m.dir d).pte u)) : P.card ≤ NPDENTRIES + hi + h.card := by
  have total := congrArg Multiset.card stage.pool
  have first := tables_card (m.dir d)
  have second := @users_card lo _ hi above
  rw [empty, own, Multiset.card_add, Multiset.card_add, Multiset.card_add, Multiset.coe_card, List.length_nil] at total
  omega

theorem Stage.fill (stage : Stage P m₀ d (f ::ₘ (o + h)) m) (b : Bytes) :
    Stage P m₀ d (o + f ::ₘ h) { m with page := update m.page f b } := by
  rw [Multiset.add_cons]
  exact stage.write (stage.mem (Multiset.mem_cons_self _ _)) b

theorem place_spec (pool : Pool link P) (small : v < NUSER) (low : lo ≤ v) (perm : flags < PGSIZE)
    (stage : Stage P m₀ d (own lo (m.dir d) + h) m) (clear : ¬present ((m.dir d).pte v)) {b : Mem → Bytes} {c : Bytes}
    (same : ∀ m' : Mem, m'.page = m.page → b m' = c) {α : Type} {A : M α} {B C : Frame → M α} {Q : α → Mem → Prop}
    (dry : ∀ m', Stage P m₀ d (own lo (m'.dir d) + h) m' → m'.dir = m.dir → Dry m₀ m' → Spec A m' E Q)
    (fails : ∀ f m', Stage P m₀ d (own lo (m'.dir d) + f ::ₘ h) m' →
      (∀ u, (m'.dir d).pte u = (m.dir d).pte u) → Dry m₀ m' →
      Spec (C f) m' E Q)
    (maps : ∀ f m', Stage P m₀ d (own lo (m'.dir d) + h) m' →
      Placed (flags ||| PTE_P, c) m d v f m' → Spec (B f) m' E Q) :
    Spec (do
      match ← kalloc with
      | none => A
      | some f => do
          fill f b
          if ← mappages d (v * PGSIZE) PGSIZE (f * PGSIZE) flags then B f else C f) m E Q := by
  refine spec_bind.mpr (kalloc_spec (fun none => ?_) fun f free taken => ?_)
  · exact dry _ stage.wait rfl fun calm => none (stage.calm calm)
  have fresh : f ∉ free := by
    have nodup := pool.nodup
    rw [← stage.pool, taken] at nodup
    exact (List.nodup_cons.mp (Multiset.coe_nodup.mp (Multiset.nodup_of_le (Multiset.le_add_right _ _) nodup))).1
  refine spec_bind.mpr (spec_modify.mpr (spec_bind.mpr ?_))
  rw [same { m with fail := m.fail.tail, free } rfl]
  refine mappages_user (m := { m with fail := m.fail.tail, free, page := update m.page f c }) small low perm
    ((stage.take taken).fill c) clear (fun m' stage same page dry => fails f m' stage same dry)
    fun m' stage pte page subset => ?_
  refine maps f m' stage ⟨pte, page, ?_, fun member => fresh (subset member)⟩
  rw [taken]
  rintro g (rfl | member)
  · exact List.mem_cons_self
  · exact List.mem_cons_of_mem f (subset member)

theorem allocuvm_undo (pool : Pool link P) (stage : Stage P m₀ d (own lo (m.dir d) + h) m) (below : newsz < KERNBASE)
    (low : lo ≤ pages oldsz) {Q : Nat → Mem → Prop} (next : ∀ m', Stage P m₀ d (own lo (m'.dir d) + h) m' →
      Bare m d (pages oldsz) (pages newsz) m' →
      Q (min newsz oldsz) m') : Spec (deallocuvm link d newsz oldsz) m E Q := by
  refine deallocuvm_spec pool stage (Nat.le_of_lt below) low
    fun m' stage pte => next m' stage ⟨fun u _ => ?_, fun u first last => ?_⟩
  · rw [pte u, if_neg]
    rintro ⟨first, last, -⟩
    rw [← lt_pages_iff] at last
    omega
  rw [pte u]
  split_ifs with doomed
  · exact fun one => one rfl
  · exact fun there => doomed ⟨first, (lt_pages_iff u newsz).mp last, there⟩

theorem allocFrom_spec (pool : Pool link P) (below : newsz < KERNBASE)
    (low : lo ≤ pages oldsz) (first : pages oldsz ≤ v) {n : Nat}
    (fuel : pages newsz - v < n) (stage : Stage P m₀ d (own lo (m.dir d) + h) m)
    (order : v ≤ pages newsz) (clear : ∀ u, v ≤ u → u < NUSER → ¬present ((m.dir d).pte u)) :
    Spec (allocFrom link d oldsz newsz n (v * PGSIZE)) m E fun r m' => Stage P m₀ d (own lo (m'.dir d) + h) m' ∧
      (r = newsz ∧ Filled blank m d v (pages newsz) m' ∨ r = 0 ∧ Bare m d (pages oldsz) (pages newsz) m' ∧
        (m₀.fail = [] → P.card ≤ NPDENTRIES + pages newsz + (h.card + 1))) := by
  have bound := pages_le (Nat.le_of_lt below)
  have limit : NUSER = 2 ^ 19 := rfl
  induction n generalizing v m with
  | zero => exact absurd fuel (Nat.not_lt_zero _)
  | succ n ih =>
    rw [allocFrom]
    by_cases more : v < pages newsz
    · rw [if_pos ((lt_pages_iff v newsz).mp more)]
      refine place_spec pool (by omega) (low.trans first) (by decide) stage
        (clear v (Nat.le_refl v) (by omega)) (fun _ _ => rfl)
        (fun m' full dir dry => ?_) (fun f m' full same dry => ?_) fun f _ stage placed => ?_
      · refine spec_bind.mpr (allocuvm_undo pool full below low fun m'' stage bare => ?_)
        refine ⟨stage,
          .inr ⟨rfl, ⟨fun u outside => (bare.outside u outside).trans (by rw [dir]), bare.inside⟩, fun calm => ?_⟩⟩
        have tight := full.tight (dry calm) fun u high => by
          rw [dir]
          exact clear u (order.trans high)
        omega
      · refine spec_bind.mpr (allocuvm_undo pool full below low fun m'' stage bare => spec_bind.mpr ?_)
        rw [Multiset.add_cons] at stage
        refine (kfree_run (pool.usable f (stage.mem (Multiset.mem_cons_self _ _)))).mpr
          ⟨stage.give _, .inr ⟨rfl, ⟨?_, bare.inside⟩, ?_⟩⟩
        · exact fun u outside => (bare.outside u outside).trans (same u)
        intro calm
        have tight := full.tight (dry calm) fun u high => by
          rw [same]
          exact clear u (order.trans high)
        rwa [Multiset.card_cons] at tight
      · have next : uint (v * PGSIZE + PGSIZE) = (v + 1) * PGSIZE := by
          simp only [uint, PGSIZE]
          omega
        rw [next]
        refine (ih (Nat.le_succ_of_le first) (by omega) stage more fun u low high => ?_).mono fun r _ result => ?_
        · rw [placed.pte, if_neg (by omega)]
          exact clear u (by omega) high
        obtain ⟨stage, ⟨rfl, filled⟩ | ⟨rfl, bare, tight⟩⟩ := result
        · exact ⟨stage, .inl ⟨rfl, filled.cons more placed⟩⟩
        · refine ⟨stage, .inr ⟨rfl, ⟨fun u outside => ?_, bare.inside⟩, tight⟩⟩
          rw [bare.outside u outside, placed.pte, if_neg (by omega)]
    · rw [if_neg (mt (lt_pages_iff v newsz).mpr more)]
      exact ⟨stage, .inl ⟨rfl, fun _ _ => rfl, fun u _ high => absurd high (by omega), fun _ _ => rfl⟩⟩

theorem allocuvm_spec (pool : Pool link P) (top : oldsz ≤ KERNBASE) (low : lo ≤ pages oldsz)
    (stage : Stage P m₀ d (own lo (m.dir d) + h) m)
    (clear : ∀ u, pages oldsz ≤ u → u < NUSER → ¬present ((m.dir d).pte u)) :
    Spec (allocuvm link d oldsz newsz) m E fun r m' => Stage P m₀ d (own lo (m'.dir d) + h) m' ∧
      (r = newsz ∧ oldsz ≤ newsz ∧ newsz < KERNBASE ∧ Filled blank m d (pages oldsz) (pages newsz) m' ∨
        r = oldsz ∧ newsz < oldsz ∧ m' = m ∨ r = 0 ∧ Bare m d (pages oldsz) NUSER m' ∧
          (newsz < KERNBASE → m₀.fail = [] → P.card ≤ NPDENTRIES + pages newsz + (h.card + 1))) := by
  rw [allocuvm]
  refine Spec.ite (fun high => ?_) fun below => Spec.ite (fun less => ?_) fun more => ?_
  · exact ⟨stage, .inr (.inr ⟨rfl, ⟨fun _ _ => rfl, clear⟩, fun low => absurd high (Nat.not_le.mpr low)⟩)⟩
  · exact ⟨stage, .inr (.inl ⟨rfl, less, rfl⟩)⟩
  · have entries : NPDENTRIES * NPTENTRIES = 2 ^ 20 := rfl
    have limit : NUSER = 2 ^ 19 := rfl
    have bound := pages_le (Nat.le_of_lt (Nat.not_le.mp below))
    have order : pages oldsz ≤ pages newsz := by
      simp only [pages, PGSIZE]
      omega
    rw [PGROUNDUP_eq top]
    refine (allocFrom_spec pool (Nat.not_le.mp below) low (Nat.le_refl _) (by omega) stage order clear).mono
      fun r _ result => ?_
    obtain ⟨stage, ⟨rfl, grown⟩ | ⟨rfl, bare, tight⟩⟩ := result
    · exact ⟨stage, .inl ⟨rfl, Nat.not_lt.mp more, Nat.not_le.mp below, grown⟩⟩
    refine ⟨stage,
      .inr (.inr ⟨rfl, ⟨fun u outside => bare.outside u (by omega), fun u first last => ?_⟩, fun _ => tight⟩)⟩
    by_cases inside : u < pages newsz
    · exact bare.inside u first inside
    · rw [bare.outside u (by omega)]
      exact clear u first last

end Growth

section Growproc

/-- Each page is free or belongs to the process once, and the user pages are those of [0, PGROUNDUP(sz)). -/
structure Ready (link : Link) (m : Mem) : Prop where
  below : m.task.sz < KERNBASE
  user : ∀ v < KERNBASE / PGSIZE, present ((m.dir m.task.pgdir).pte v) ↔ v * PGSIZE < m.task.sz
  pool : Pool link ((m.free : Multiset Frame) + own 0 (m.dir m.task.pgdir))

theorem frame_cons_own_le (low : v < lo) (bound : lo ≤ NUSER) (there : present (x.pte v)) :
    frame (x.pte v) ::ₘ own lo x ≤ own 0 x := by
  have split : users 0 x = ∑ u ∈ Finset.Ico 0 lo, mapped (x.pte u) + users lo x :=
    (Finset.sum_Ico_consecutive (fun u => mapped (x.pte u)) (Nat.zero_le lo) bound).symm
  have one : mapped (x.pte v) ≤ ∑ u ∈ Finset.Ico 0 lo, mapped (x.pte u) :=
    Finset.single_le_sum_of_canonicallyOrdered (f := fun u => mapped (x.pte u))
      (Finset.mem_Ico.mpr ⟨Nat.zero_le v, low⟩)
  rw [mapped, if_pos there] at one
  rw [own, own, split, ← add_assoc, Multiset.add_comm _ (Finset.sum _ _), add_assoc, ← Multiset.singleton_add]
  exact add_le_add_left one _

theorem own_le (x : Dir) (lo : Nat) : own lo x ≤ own 0 x :=
  add_le_add_right (Finset.sum_le_sum_of_subset (Finset.Ico_subset_Ico_left (Nat.zero_le lo))) _

theorem Ready.stage (ready : Ready link m) (lo : Nat) :
    Pool link ((m.free : Multiset Frame) + own lo (m.dir m.task.pgdir)) ∧
      Stage ((m.free : Multiset Frame) + own lo (m.dir m.task.pgdir)) m m.task.pgdir
      (own lo (m.dir m.task.pgdir) + 0) m := by
  refine ⟨ready.pool.of_le (add_le_add_right (own_le _ lo) _), ?_⟩
  rw [add_zero]
  exact Stage.start _ _

theorem Ready.kept (ready : Ready link m) {m' : Mem}
    (stage : Stage ((m.free : Multiset Frame) + own lo (m.dir m.task.pgdir)) m d o m')
    (low : v < lo) (bound : lo ≤ NUSER) (there : present ((m.dir m.task.pgdir).pte v)) :
    m'.page (frame ((m.dir m.task.pgdir).pte v)) = m.page (frame ((m.dir m.task.pgdir).pte v)) := by
  have nodup := Multiset.nodup_of_le (add_le_add_right (frame_cons_own_le low bound there) _) ready.pool.nodup
  rw [Multiset.add_cons, Multiset.nodup_cons] at nodup
  exact stage.page _ nodup.1

/-- The user pages of `m` are mapped in `m'` as they were, with their contents. -/
def Kept (m : Mem) (sz : Nat) (m' : Mem) : Prop := ∀ v < KERNBASE / PGSIZE, v * PGSIZE < m.task.sz → v * PGSIZE < sz →
  (m'.dir m.task.pgdir).pte v = (m.dir m.task.pgdir).pte v ∧
    m'.page (frame ((m.dir m.task.pgdir).pte v)) = m.page (frame ((m.dir m.task.pgdir).pte v))

structure Resized (m : Mem) (sz : Nat) (m' : Mem) : Prop where
  task : m'.task = { m.task with sz }
  user : ∀ v < KERNBASE / PGSIZE, present ((m'.dir m.task.pgdir).pte v) ↔ v * PGSIZE < sz
  kept : Kept m sz m'
  new : ∀ v < KERNBASE / PGSIZE, m.task.sz ≤ v * PGSIZE → v * PGSIZE < sz →
    m'.page (frame ((m'.dir m.task.pgdir).pte v)) = fun _ => 0

/-- What `growproc(n)` may leave: the new size, or everything as it was. -/
def Exact (m : Mem) (n : Int) (r : Int) (m' : Mem) : Prop :=
  r = 0 ∧ (∃ sz : Nat, (sz : Int) = m.task.sz + n ∧ Resized m sz m') ∨ r = -1 ∧ Resized m m.task.sz m'

theorem setGrown_spec {sz : Nat} {Q : Int → Mem → Prop} (failed : sz = 0 → Q (-1) m)
    (grown : sz ≠ 0 → Q 0 { m with task := { m.task with sz } }) : Spec (setGrown sz) m E Q := by
  rw [setGrown]
  exact Spec.ite failed grown

theorem growproc_pos {n : Int} (pos : 0 < n) {Q : Int → Mem → Prop} : Spec (growproc link n) m E Q ↔
    Spec (allocuvm link m.task.pgdir m.task.sz ((m.task.sz + n) % 2 ^ 32).toNat) m E
    fun sz m' => Spec (setGrown sz) m' E Q := by
  rw [growproc, spec_bind, spec_get, ← spec_bind]
  dsimp only
  rw [if_pos pos]

theorem growproc_neg {n : Int} (neg : n < 0) {Q : Int → Mem → Prop} : Spec (growproc link n) m E Q ↔
    Spec (deallocuvm link m.task.pgdir m.task.sz ((m.task.sz + n) % 2 ^ 32).toNat) m E
    fun sz m' => Spec (setGrown sz) m' E Q := by
  rw [growproc, spec_bind, spec_get, ← spec_bind]
  dsimp only
  rw [if_neg (by omega), if_pos neg]

theorem Filled.resized (ready : Ready link m) {m' : Mem} (more : m.task.sz ≤ newsz)
    (stage : Stage ((m.free : Multiset Frame) + own (pages m.task.sz) (m.dir m.task.pgdir)) m m.task.pgdir o m')
    (grown : Filled blank m m.task.pgdir (pages m.task.sz) (pages newsz) m') :
    Resized m newsz { m' with task := { m'.task with sz := newsz } } := by
  have bound := pages_le (Nat.le_of_lt ready.below)
  refine ⟨by rw [stage.task], fun v small => ?_, fun v small old _ => ⟨?_, ?_⟩, fun v small new last => ?_⟩
  · rw [← lt_pages_iff]
    by_cases inside : pages m.task.sz ≤ v ∧ v < pages newsz
    · obtain ⟨f, pte, -⟩ := grown.inside v inside.1 inside.2
      rw [pte, present_iff]
      simp only [inside.2, iff_true, PGSIZE, blank]
      omega
    have order : pages m.task.sz ≤ pages newsz := by
      simp only [pages, PGSIZE]
      omega
    rw [grown.outside v (by omega), ready.user v small, ← lt_pages_iff]
    omega
  · exact grown.outside v (.inl ((lt_pages_iff v _).mpr old))
  · have same := ready.kept stage ((lt_pages_iff v _).mpr old) bound ((ready.user v small).mpr old)
    exact same
  · rw [← Nat.not_lt, ← lt_pages_iff, Nat.not_lt] at new
    obtain ⟨f, pte, zero⟩ := grown.inside v new ((lt_pages_iff v newsz).mpr last)
    have whole : frame (f * PGSIZE + 7) = f := by
      simp only [frame, PGSIZE]
      omega
    show m'.page (frame ((m'.dir m.task.pgdir).pte v)) = _
    rw [pte]
    exact (congrArg _ whole).trans zero

theorem Bare.resized (ready : Ready link m) {m' : Mem}
    (stage : Stage ((m.free : Multiset Frame) + own (pages m.task.sz) (m.dir m.task.pgdir)) m m.task.pgdir o m')
    (bare : Bare m m.task.pgdir (pages m.task.sz) NUSER m') : Resized m m.task.sz m' := by
  have bound := pages_le (Nat.le_of_lt ready.below)
  refine ⟨stage.task, fun v small => ?_, fun v small old _ => ⟨?_, ?_⟩,
    fun v small new last => absurd last (Nat.not_lt.mpr new)⟩
  · by_cases old : v * PGSIZE < m.task.sz
    · rw [bare.outside v (.inl ((lt_pages_iff v _).mpr old)), ready.user v small]
    · rw [← lt_pages_iff] at old ⊢
      exact iff_of_false (bare.inside v (Nat.not_lt.mp old) small) old
  · exact bare.outside v (.inl ((lt_pages_iff v _).mpr old))
  · exact ready.kept stage ((lt_pages_iff v _).mpr old) bound ((ready.user v small).mpr old)

theorem resized_shrunk (ready : Ready link m) {m' : Mem} (less : newsz ≤ m.task.sz)
    (stage : Stage ((m.free : Multiset Frame) + own (pages newsz) (m.dir m.task.pgdir)) m m.task.pgdir o m')
    (pte : ∀ v, (m'.dir m.task.pgdir).pte v =
      if Doomed m m.task.pgdir m.task.sz newsz v then 0 else (m.dir m.task.pgdir).pte v) :
    Resized m newsz { m' with task := { m'.task with sz := newsz } } := by
  have below := ready.below
  have bound := pages_le (show newsz ≤ KERNBASE by omega)
  have spared : ∀ v, v * PGSIZE < newsz → ¬Doomed m m.task.pgdir m.task.sz newsz v := fun v old doomed => by
    rw [← lt_pages_iff] at old
    exact Nat.not_le.mpr old doomed.1
  refine ⟨by rw [stage.task], fun v small => ?_, fun v small old kept => ⟨?_,
    ?_⟩, fun v small _ last => absurd last (by omega)⟩
  · show present ((m'.dir m.task.pgdir).pte v) ↔ _
    rw [pte]
    split_ifs with doomed
    · have gone := doomed.1
      rw [← Nat.not_lt, lt_pages_iff] at gone
      exact iff_of_false (fun one => one rfl) gone
    rw [ready.user v small]
    refine ⟨fun old => ?_, fun kept => by omega⟩
    by_contra gone
    rw [← lt_pages_iff] at gone
    exact doomed ⟨Nat.not_lt.mp gone, old, (ready.user v small).mpr old⟩
  · show (m'.dir m.task.pgdir).pte v = _
    rw [pte, if_neg (spared v kept)]
  · have same := ready.kept stage ((lt_pages_iff v _).mpr kept) bound ((ready.user v small).mpr old)
    exact same

theorem growproc_up (ready : Ready link m) {n : Int} (pos : 0 < n) (high : n < 2 ^ 31) :
    Spec (growproc link n) m E (Exact m n) := by
  have below := ready.below
  have base : KERNBASE = 2 ^ 31 := rfl
  obtain ⟨k, rfl⟩ := Int.eq_ofNat_of_zero_le (Int.le_of_lt pos)
  have sum : (((m.task.sz : Int) + k) % 2 ^ 32).toNat = m.task.sz + k := by omega
  obtain ⟨pool, stage⟩ := ready.stage (pages m.task.sz)
  rw [growproc_pos pos, sum]
  refine (allocuvm_spec pool (Nat.le_of_lt below) (Nat.le_refl _) stage fun u _ small => ?_).mono fun r _ result => ?_
  · rw [ready.user u small, ← lt_pages_iff]
    omega
  obtain ⟨stage, ⟨rfl, more, -, grown⟩ | ⟨rfl, less, -⟩ | ⟨rfl, bare, -⟩⟩ := result
  · exact setGrown_spec (fun zero => absurd zero (by omega))
      fun _ => .inl ⟨rfl, _, by omega, grown.resized ready more stage⟩
  · exact absurd less (by omega)
  · exact setGrown_spec (fun _ => .inr ⟨rfl, bare.resized ready stage⟩) fun pos => absurd rfl pos

theorem growproc_down (ready : Ready link m) {n : Int} (neg : n < 0) (rest : 0 < m.task.sz + n) :
    Spec (growproc link n) m E (Exact m n) := by
  have below := ready.below
  have base : KERNBASE = 2 ^ 31 := rfl
  obtain ⟨sz, isSz⟩ := Int.eq_ofNat_of_zero_le (Int.le_of_lt rest)
  have sum : (((m.task.sz : Int) + n) % 2 ^ 32).toNat = sz := by omega
  obtain ⟨pool, stage⟩ := ready.stage (pages sz)
  rw [growproc_neg neg, sum]
  refine deallocuvm_spec pool stage (Nat.le_of_lt below) (Nat.le_refl _) fun _ stage pte => ?_
  rw [min_eq_right (by omega)]
  exact setGrown_spec (fun zero => absurd zero (by omega))
    fun _ => .inl ⟨rfl, sz, isSz.symm, resized_shrunk ready (by omega) stage pte⟩

theorem growproc_under (ready : Ready link m) {n : Int} (low : -2 ^ 31 ≤ n) (neg : n < 0) (none : m.task.sz + n ≤ 0) :
    Spec (growproc link n) m E fun r m' => Exact m n r m' ↔ m.task.sz = 0 := by
  have below := ready.below
  have base : KERNBASE = 2 ^ 31 := rfl
  obtain ⟨pool, stage⟩ := ready.stage 0
  rw [growproc_neg neg]
  refine deallocuvm_spec pool stage (Nat.le_of_lt below) (Nat.zero_le _) fun _ stage pte => ?_
  refine setGrown_spec (fun _ => ⟨?_, fun empty => .inr ⟨rfl, ?_⟩⟩) fun _ => ⟨?_, fun empty => absurd empty (by omega)⟩
  · rintro (⟨bad, -⟩ | ⟨-, resized⟩)
    · exact absurd bad (by decide)
    by_contra pos
    have first := (resized.user 0 (by decide)).mpr (by omega)
    have start : pages 0 = 0 := by decide
    have gone : Doomed m m.task.pgdir m.task.sz ((m.task.sz + n) % 2 ^ 32).toNat 0 := by
      refine ⟨?_, by omega, (ready.user 0 (by decide)).mpr (by omega)⟩
      have nothing : (((m.task.sz : Int) + n) % 2 ^ 32).toNat = 0 := by omega
      rw [nothing, start]
    rw [pte, if_pos gone] at first
    exact first rfl
  · have outside : ∀ v, ¬Doomed m m.task.pgdir m.task.sz ((m.task.sz + n) % 2 ^ 32).toNat v := fun v doomed => by
      have := doomed.2.1
      omega
    refine ⟨stage.task, fun v small => ?_, fun v _ old => absurd old (by omega), fun v _ _ new => absurd new (by omega)⟩
    rw [pte, if_neg (outside v), ready.user v small]
  · rintro (⟨-, _, _, _⟩ | ⟨bad, -⟩)
    · omega
    · exact absurd bad (by decide)

theorem growproc_exact (link : Link) (m : Mem) (n : Int)
    (low : -2 ^ 31 ≤ n) (high : n < 2 ^ 31) (ready : Ready link m) :
    (∃ r m', growproc link n m = .ok (r, m') ∧ Exact m n r m') ↔ ¬(0 < m.task.sz ∧ n < 0 ∧ m.task.sz + n ≤ 0) := by
  have under := fun neg none => @growproc_under link m (fun _ => False) ready n low neg none
  constructor
  · rintro ⟨r, m', run, exact⟩ ⟨pos, neg, none⟩
    exact absurd (((under neg none).ok run).mp exact) (by omega)
  intro _
  have result : Spec (growproc link n) m (fun _ => False) (Exact m n) := by
    obtain pos | rfl | neg := Int.lt_trichotomy 0 n
    · exact growproc_up ready pos high
    · have bound := pages_le (Nat.le_of_lt ready.below)
      obtain ⟨-, stage⟩ := ready.stage (pages m.task.sz)
      refine .inl ⟨rfl, m.task.sz, by omega, rfl, ready.user, fun v _ _ _ => ⟨rfl, rfl⟩, fun v _ new last => ?_⟩
      exact absurd last (Nat.not_lt.mpr new)
    · by_cases rest : 0 < m.task.sz + n
      · exact growproc_down ready neg rest
      · refine (under neg (by omega)).mono fun r m' exact => exact.mpr ?_
        omega
  obtain ⟨r, m', run, exact⟩ := result.returns
  exact ⟨r, m', run, exact⟩

theorem sampleMem_own : own 0 ((sampleMem 1).dir d) = {650, 700} := by
  have small : 1 ≤ NPTENTRIES := by decide
  have first : tables 0 ((sampleMem 1).dir d) = {650} := by
    rw [tables_succ _ (by decide)]
    exact (congrArg _ (Finset.sum_eq_zero fun j inside => by
      have pos : j ≠ 0 := Nat.ne_of_gt (Finset.mem_Ico.mp inside).1
      simp [sampleMem, Table.owned, pos])).trans (add_zero _)
  have second : users 0 ((sampleMem 1).dir d) = {700} := by
    have rest : ∑ v ∈ Finset.Ico (0 + 1) NUSER, mapped (((sampleMem 1).dir d).pte v) = 0 := by
      refine Finset.sum_eq_zero fun v inside => if_neg ?_
      rw [sampleMem_present small]
      exact Nat.not_lt.mpr (Finset.mem_Ico.mp inside).1
    refine (Finset.sum_eq_sum_Ico_succ_bot (by decide) _).trans ?_
    rw [rest, add_zero, mapped, if_pos ((sampleMem_present small).mpr Nat.one_pos), sampleMem_frame small Nat.one_pos]
  rw [own, first, second]
  rfl

theorem sampleMem_ready : Ready sampleLink (sampleMem 1) := by
  have small : 1 ≤ NPTENTRIES := by decide
  refine ⟨by decide, fun v _ => ?_, ?_, ?_⟩
  · rw [sampleMem_present small]
    simp only [sampleMem, PGSIZE]
    omega
  · rw [sampleMem_own]
    decide
  · rw [sampleMem_own]
    intro (f : Nat) member
    have among : f ∈ [601, 602, 603, 650, 700] := member
    simp only [List.mem_cons, List.not_mem_nil, or_false] at among
    exact usable_sample (by omega) (by omega)

theorem growproc_exact_one :
    ∃ r m', growproc sampleLink 5000 (sampleMem 1) = .ok (r, m') ∧ Exact (sampleMem 1) 5000 r m' :=
  (growproc_exact sampleLink (sampleMem 1) 5000 (by decide) (by decide) sampleMem_ready).mpr
    fun bad => absurd bad.2.1 (by decide)

/-- `growproc(-sz)` frees all pages and returns -1. `growproc(n)` with a smaller `n` returns 0 and leaves the size. -/
theorem growproc_all : Ready sampleLink (sampleMem 1) ∧
    ((growproc sampleLink (-4096) (sampleMem 1)).toOption.map
      fun p => (p.1, (p.2.dir 600).pte 0, p.2.free, p.2.task.sz)) =
      some (-1, 0, [700, 601, 602, 603], 4096) ∧
    ((growproc sampleLink (-4097) (sampleMem 1)).toOption.map
      fun p => (p.1, (p.2.dir 600).pte 0, p.2.free, p.2.task.sz)) =
      some (0, 700 * PGSIZE + 7, [601, 602, 603], 4096) :=
  ⟨sampleMem_ready, by decide +kernel, by decide +kernel⟩

end Growproc

section Release

theorem freeTables_spec (pool : Pool link P) {n : Nat} (size : i + n = NPDENTRIES)
    (stage : Stage P m₀ d (tables i (m.dir d) + h) m) :
    Spec (freeTables link d n i) m E fun _ m' => Stage P m₀ d h m' := by
  induction n generalizing i m with
  | zero =>
    have none : tables i (m.dir d) = 0 := by
      unfold tables
      rw [← size, Nat.add_zero, Finset.Ico_self, Finset.sum_empty]
    rw [none, zero_add] at stage
    exact stage
  | succ n ih =>
    rw [tables_succ _ (by omega)] at stage
    rw [freeTables, spec_bind, spec_get]
    cases table : m.dir d i with
    | none =>
      rw [table, Table.owned, Option.elim_none, zero_add] at stage
      exact ih (by omega) stage
    | some t =>
      rw [table, Table.owned, Option.elim_some, add_assoc, Multiset.singleton_add] at stage
      refine spec_bind.mpr ((kfree_run (pool.usable _ (stage.mem (Multiset.mem_cons_self _ _)))).mpr ?_)
      exact ih (by omega) (stage.give _)

theorem freevm_spec (pool : Pool link P) (stage : Stage P m₀ d (own 0 (m.dir d) + {d}) m) :
    Spec (freevm link d) m E fun _ m' => Stage P m₀ d 0 m' := by
  refine spec_bind.mpr (deallocuvm_spec pool stage (Nat.le_refl _) (Nat.zero_le _) fun m' stage pte => spec_bind.mpr ?_)
  have none : users 0 (m'.dir d) = 0 := by
    refine Finset.sum_eq_zero fun v inside => if_neg ?_
    rw [pte]
    split_ifs with doomed
    · exact fun one => one rfl
    · refine fun there => doomed ⟨by simp [pages, PGSIZE], ?_, there⟩
      rw [← lt_pages_iff]
      exact (Finset.mem_Ico.mp inside).2
  rw [own, none, add_zero] at stage
  refine (freeTables_spec pool (Nat.zero_add _) stage).mono fun _ _ stage => ?_
  have mine := stage.mem (Multiset.mem_singleton_self d)
  rw [← Multiset.cons_zero] at stage
  exact (kfree_run (pool.usable d mine)).mpr (stage.give _)

structure Restored (m m' : Mem) : Prop where
  free : (m'.free : Multiset Frame) = m.free
  page : ∀ g ∉ m.free, m'.page g = m.page g
  dir : ∀ g ∉ m.free, m'.dir g = m.dir g
  task : m'.task = m.task

theorem Stage.restored {m' : Mem} (stage : Stage m.free m d 0 m') (mine : d ∈ m.free) : Restored m m' := by
  refine ⟨by rw [← stage.pool, add_zero], stage.page, fun g outside => stage.dir g ?_, stage.task⟩
  rintro rfl
  exact outside mine

end Release

section Kernel

def Kmap.Covers (k : Kmap) (u : Nat) : Prop := k.virt ≤ u * PGSIZE ∧ u * PGSIZE < k.virt + k.size

def Kmap.entry (k : Kmap) (u : Nat) : Nat := (k.physStart + (u * PGSIZE - k.virt)) ||| k.perm ||| PTE_P

structure KernelMapped (link : Link) (x : Dir) : Prop where
  inside : ∀ k ∈ kmap link, ∀ u, k.Covers u → x.pte u = k.entry u
  outside : ∀ u, NUSER ≤ u → (∀ k ∈ kmap link, ¬k.Covers u) → x.pte u = 0

theorem mapFrom_range {k n pa : Nat} (fuel : k < n) (stage : Stage P m₀ d (own lo (m.dir d) + h) m)
    (outside : lo = NUSER ∨ NUSER ≤ v) (top : v + k < 2 ^ 20) (small : pa < 2 ^ 32)
    (clear : ∀ u, v ≤ u → u ≤ v + k → ¬present ((m.dir d).pte u)) :
    Spec (mapFrom d ((v + k) * PGSIZE) flags n (v * PGSIZE) pa) m E fun b m' =>
      Stage P m₀ d (own lo (m'.dir d) + h) m' ∧ m'.page = m.page ∧
        ∃ j, (b = true ∧ j = k + 1 ∨ b = false ∧ j ≤ k ∧ Dry m₀ m') ∧
        ∀ u, (m'.dir d).pte u =
          if v ≤ u ∧ u < v + j then uint (pa + (u - v) * PGSIZE) ||| flags ||| PTE_P else (m.dir d).pte u := by
  induction n generalizing v k m pa with
  | zero => exact absurd fuel (Nat.not_lt_zero k)
  | succ n ih =>
    refine mapFrom_step stage (by omega) (clear v (Nat.le_refl v) (Nat.le_add_right v k))
      (fun m' stage same page dry => ?_) ?_
    · refine ⟨stage, page, 0, .inr ⟨rfl, Nat.zero_le k, dry⟩, fun u => ?_⟩
      rw [if_neg (by omega), same]
    intro m' stage table same page _
    have first : uint (pa + (v - v) * PGSIZE) = pa := by
      rw [Nat.sub_self, Nat.zero_mul]
      exact Nat.mod_eq_of_lt small
    have started : Stage P m₀ d (own lo ((m'.put d v (pa ||| flags ||| PTE_P)).dir d) + h)
      (m'.put d v (pa ||| flags ||| PTE_P)) := by
      show Stage P m₀ d (own lo (update m'.dir d _ d) + h) _
      rw [update_self, own_setPte_outside table outside]
      exact stage.turn _
    cases k with
    | zero =>
      rw [Nat.add_zero, if_pos rfl]
      refine ⟨started, page, 1, .inl ⟨rfl, rfl⟩, fun u => ?_⟩
      rw [pte_put table, same]
      obtain rfl | other := eq_or_ne u v
      · rw [if_pos rfl, if_pos (by omega), first]
      · rw [if_neg other, if_neg (by omega)]
    | succ k =>
      have next : uint (v * PGSIZE + PGSIZE) = (v + 1) * PGSIZE ∧ ¬v * PGSIZE = (v + (k + 1)) * PGSIZE := by
        simp only [uint, PGSIZE]
        omega
      rw [if_neg next.2, next.1, ← Nat.add_assoc, Nat.add_right_comm v k 1]
      refine (ih (by omega) started (by omega) (by omega) (Nat.mod_lt _ (by decide)) fun u _ _ => ?_).mono
        fun b _ result => ?_
      · rw [pte_put table, if_neg (by omega), same]
        exact clear u (by omega) (by omega)
      obtain ⟨stage, page', j, ends, pte⟩ := result
      refine ⟨stage, page'.trans page, j + 1,
        ends.imp (.imp_right (congrArg (· + 1))) (.imp_right (.imp_left Nat.succ_le_succ)), fun u => ?_⟩
      rw [pte, pte_put table, same]
      obtain rfl | other := eq_or_ne u v
      · rw [if_neg (by omega), if_pos rfl, if_pos (by omega), first]
      rw [if_neg other]
      refine ite_congr (propext (by omega)) (fun _ => ?_) fun _ => rfl
      have distance : uint ((pa + PGSIZE) % 2 ^ 32 + (u - (v + 1)) * PGSIZE) = uint (pa + (u - v) * PGSIZE) := by
        simp only [uint, PGSIZE]
        omega
      rw [distance]

def target (first pa perm v : Nat) : Nat := uint (pa + (v - first) * PGSIZE) ||| perm ||| PTE_P

theorem target_parts {first pa perm : Nat} (aligned : pa % PGSIZE = 0) (small : perm < PGSIZE) (v : Nat) :
    frame (target first pa perm v) * PGSIZE = uint (pa + (v - first) * PGSIZE) ∧
      PTE_FLAGS (target first pa perm v) = perm ||| PTE_P := by
  have whole : uint (pa + (v - first) * PGSIZE) = uint (pa + (v - first) * PGSIZE) / PGSIZE * PGSIZE := by
    simp only [uint, PGSIZE] at aligned ⊢
    omega
  have tail := or_present small
  rw [target, Nat.or_assoc, whole, or_flags _ tail]
  simp only [frame, PTE_FLAGS, PGSIZE] at tail ⊢
  omega

/-- The first `j` pages of the range have been mapped, and no other entry has changed. -/
structure Translates (m : Mem) (d va pa perm j : Nat) (m' : Mem) : Prop where
  others : ∀ e ≠ d, m'.dir e = m.dir e
  outside : ∀ v, v < va / PGSIZE ∨ va / PGSIZE + j ≤ v → (m'.dir d).pte v = (m.dir d).pte v
  inside : ∀ v, va / PGSIZE ≤ v → v < va / PGSIZE + j → (m'.dir d).pte v = target (va / PGSIZE) pa perm v
  parts : pa % PGSIZE = 0 → perm < PGSIZE → ∀ k < j,
    frame ((m'.dir d).pte (va / PGSIZE + k)) * PGSIZE = uint (pa + k * PGSIZE) ∧
      PTE_FLAGS ((m'.dir d).pte (va / PGSIZE + k)) = perm ||| PTE_P

theorem mappages_translates (m : Mem) (d va size pa perm : Nat) (positive : 1 ≤ size) (last : va + size - 1 < 2 ^ 32)
    (small : pa < 2 ^ 32) (clear : ∀ v, va / PGSIZE ≤ v → v ≤ (va + size - 1) / PGSIZE → ¬present ((m.dir d).pte v)) :
    ∃ b m' j, mappages d va size pa perm m = .ok (b, m') ∧ Translates m d va pa perm j m' ∧
      (b = true ∧ j = (va + size - 1) / PGSIZE - va / PGSIZE + 1 ∨
        b = false ∧ j ≤ (va + size - 1) / PGSIZE - va / PGSIZE) := by
  have order : va / PGSIZE ≤ (va + size - 1) / PGSIZE := Nat.div_le_div_right (by omega)
  have ends : PGROUNDDOWN (uint (va + size + 2 ^ 32 - 1)) =
      (va / PGSIZE + ((va + size - 1) / PGSIZE - va / PGSIZE)) * PGSIZE := by
    rw [Nat.add_sub_cancel' order]
    simp only [PGROUNDDOWN, uint, PGSIZE]
    omega
  have bound : (va + size - 1) / PGSIZE < 2 ^ 20 := by
    simp only [PGSIZE]
    omega
  have fuel : (va + size - 1) / PGSIZE - va / PGSIZE < NPDENTRIES * NPTENTRIES :=
    Nat.lt_of_le_of_lt (Nat.sub_le _ _) bound
  have run :
    Spec (mapFrom d ((va / PGSIZE + ((va + size - 1) / PGSIZE - va / PGSIZE)) * PGSIZE) perm (NPDENTRIES * NPTENTRIES)
      (va / PGSIZE * PGSIZE) pa) m (fun _ => False) _ :=
    mapFrom_range fuel (Stage.start d (own NUSER (m.dir d) + 0))
      (.inl rfl) (by omega) small fun u low high => clear u low (by omega)
  obtain ⟨b, m', run, stage, -, j, result, pte⟩ := run.returns
  have inside : ∀ v, va / PGSIZE ≤ v → v < va / PGSIZE + j → (m'.dir d).pte v = target (va / PGSIZE) pa perm v :=
    fun v low high => (pte v).trans (if_pos ⟨low, high⟩)
  refine ⟨b, m', j, ?_, ⟨stage.dir, fun v _ => (pte v).trans (if_neg (by omega)), inside, fun aligned perms k _ => ?_⟩,
    result.imp_right fun failed => ⟨failed.1, failed.2.1⟩⟩
  · rw [mappages, ends]
    exact run
  · have parts := @target_parts (va / PGSIZE) pa perm aligned perms (va / PGSIZE + k)
    rw [inside _ (Nat.le_add_right _ k) (by omega)]
    rwa [Nat.add_sub_cancel_left] at parts

theorem mappages_translates_last : ∃ b m' j, mappages 600 0xFFFFF001 0xFFF 0 PTE_W (sampleMem 1) = .ok (b, m') ∧
    Translates (sampleMem 1) 600 0xFFFFF001 0 PTE_W j m' := by
  obtain ⟨b, m', j, run, all, -⟩ :=
    mappages_translates (sampleMem 1) 600 0xFFFFF001 0xFFF 0 PTE_W (by decide) (by decide) (by decide)
    fun v _ _ => by
      rw [sampleMem_present (by decide)]
      have : 0xFFFFF001 / PGSIZE = 0xFFFFF := by decide
      omega
  exact ⟨b, m', j, run, all⟩

def Kmap.Valid (k : Kmap) (v n : Nat) : Prop :=
  k.virt = v * PGSIZE ∧ k.size = (n + 1) * PGSIZE ∧ NUSER ≤ v ∧ v + n < 2 ^ 20 ∧ k.physStart + n * PGSIZE < 2 ^ 32

theorem Kmap.Valid.covers {k : Kmap} {n : Nat} (valid : k.Valid v n) : k.Covers u ↔ v ≤ u ∧ u ≤ v + n := by
  unfold Kmap.Covers
  rw [valid.1, valid.2.1]
  simp only [PGSIZE]
  omega

theorem mapKernel_spec {l : List Kmap} (valid : ∀ k ∈ l, ∃ v n, k.Valid v n)
    (apart : l.Pairwise fun k k' => ∀ u, k.Covers u → ¬k'.Covers u) (stage : Stage P m₀ d (own lo (m.dir d) + h) m)
    (clear : ∀ k ∈ l, ∀ u, k.Covers u → ¬present ((m.dir d).pte u)) :
    Spec (mapKernel d l) m E fun b m' => Stage P m₀ d (own lo (m'.dir d) + h) m' ∧ m'.page = m.page ∧
      (∀ u, (∀ k ∈ l, ¬k.Covers u) → (m'.dir d).pte u = (m.dir d).pte u) ∧
        (b = true ∧ (∀ k ∈ l, ∀ u, k.Covers u → (m'.dir d).pte u = k.entry u) ∨ b = false ∧ Dry m₀ m') := by
  induction l generalizing m with
  | nil => exact ⟨stage, rfl, fun _ _ => rfl, .inl ⟨rfl, fun k member => absurd member List.not_mem_nil⟩⟩
  | cons k l ih =>
    obtain ⟨v, n, range⟩ := valid k List.mem_cons_self
    obtain ⟨virt, size, high, top, room⟩ := id range
    obtain ⟨others, apart⟩ := List.pairwise_cons.mp apart
    have last : PGROUNDDOWN (uint (v * PGSIZE + (n + 1) * PGSIZE + 2 ^ 32 - 1)) = (v + n) * PGSIZE := by
      simp only [PGROUNDDOWN, uint, PGSIZE]
      omega
    have first : PGROUNDDOWN (v * PGSIZE) = v * PGSIZE := by
      simp only [PGROUNDDOWN, PGSIZE]
      omega
    have fuel : n < NPDENTRIES * NPTENTRIES := by
      simp only [NPDENTRIES, NPTENTRIES]
      omega
    rw [mapKernel, spec_bind, mappages, virt, size, last, first]
    refine (mapFrom_range fuel stage (.inr high) top (by omega) fun u low high => ?_).mono fun b m' result => ?_
    · exact clear k List.mem_cons_self u (range.covers.mpr ⟨low, high⟩)
    obtain ⟨stage, page, j, ends, pte⟩ := result
    have outside : ∀ u, u < v ∨ v + n < u → (m'.dir d).pte u = (m.dir d).pte u := fun u other => by
      rw [pte, if_neg (by omega)]
    obtain ⟨rfl, rfl⟩ | ⟨rfl, -, dry⟩ := ends
    · have spared : ∀ u, ¬k.Covers u → (m'.dir d).pte u = (m.dir d).pte u := fun u other => by
        rw [range.covers] at other
        exact outside u (by omega)
      refine (ih (fun k member => valid k (List.mem_cons_of_mem _ member)) apart stage
        fun k' member u covers => ?_).mono ?_
      · rw [spared u fun both => others k' member u both covers]
        exact clear k' (List.mem_cons_of_mem k member) u covers
      rintro b _ ⟨stage, page', outside, result⟩
      refine ⟨stage, page'.trans page, fun u none => ?_,
        result.imp_left (And.imp_right fun rest k' member u covers => ?_)⟩
      · rw [outside u fun k' member => none k' (List.mem_cons_of_mem k member), spared u (none k List.mem_cons_self)]
      obtain rfl | member := List.mem_cons.mp member
      · have place := range.covers.mp covers
        have near : uint (k'.physStart + (u - v) * PGSIZE) = k'.physStart + (u * PGSIZE - k'.virt) := by
          rw [virt, ← Nat.sub_mul]
          refine Nat.mod_eq_of_lt (Nat.lt_of_le_of_lt ?_ room)
          exact Nat.add_le_add_left (Nat.mul_le_mul_right PGSIZE (by omega)) _
        rw [outside u fun k member => others k member u covers, pte, if_pos (by omega), near, Kmap.entry]
      · exact rest k' member u covers
    · refine ⟨stage, page, fun u none => ?_, .inr ⟨rfl, dry⟩⟩
      have other := none k List.mem_cons_self
      rw [range.covers] at other
      exact outside u (by omega)

theorem kmap_valid (link : Link) : (∀ k ∈ kmap link, ∃ v n, k.Valid v n) ∧
    (kmap link).Pairwise fun k k' => ∀ u, k.Covers u → ¬k'.Covers u := by
  obtain ⟨data, _, aligned, above, _, below⟩ := link
  simp only [kmap, List.mem_cons, List.not_mem_nil, or_false,
    forall_eq_or_imp, forall_eq, List.pairwise_cons, false_imp_iff,
    implies_true, List.Pairwise.nil, and_true, Kmap.Valid, Kmap.Covers,
    Kmap.size, V2P, uint, KERNBASE, KERNLINK, EXTMEM, PHYSTOP,
    DEVSPACE, PGSIZE, NUSER] at aligned above below ⊢
  refine ⟨⟨⟨0x80000, 255, ?_⟩, ⟨0x80100, data / 4096 - 0x80101, ?_⟩,
    ⟨data / 4096, 0x8DFFF - data / 4096, ?_⟩, ⟨0xFE000, 8191, ?_⟩⟩,
    ⟨fun u => ?_, fun u => ?_, fun u => ?_⟩, ⟨fun u => ?_, fun u => ?_⟩, fun u => ?_⟩ <;> omega

theorem own_empty : own lo (fun _ => none) = 0 := by
  have zero : ∀ v, Dir.pte (fun _ => none) v = 0 := fun v => Dir.pte_absent rfl
  have first : tables 0 (fun _ => none) = 0 := Finset.sum_eq_zero fun _ _ => rfl
  have second : users lo (fun _ => none) = 0 :=
    Finset.sum_eq_zero fun v _ => if_neg fun there => there (by rw [zero]; rfl)
  rw [own, first, second, add_zero]

structure Fresh (link : Link) (m : Mem) (d : Frame) (m' : Mem) : Prop where
  mine : d ∈ m.free
  stage : Stage m.free m d (own 0 (m'.dir d) + {d}) m'
  kernel : KernelMapped link (m'.dir d)
  user : ∀ u < NUSER, (m'.dir d).pte u = 0

theorem setupkvm_spec (pool : Pool link (m.free : Multiset Frame)) :
    Spec (setupkvm link) m E fun r m' => r = none ∧ Restored m m' ∧ (m.fail = [] → m.free.length ≤ NPDENTRIES + 1) ∨
      ∃ d, r = some d ∧ Fresh link m d m' := by
  obtain ⟨valid, apart⟩ := kmap_valid link
  have kernel : ∀ k ∈ kmap link, ∀ u < NUSER, ¬k.Covers u := fun k member u small covers => by
    obtain ⟨v, n, range⟩ := valid k member
    have := (range.covers.mp covers).1
    have := range.2.2.1
    omega
  refine spec_bind.mpr
    (kalloc_spec (fun none => .inl ⟨rfl, ⟨rfl, fun _ _ => rfl, fun _ _ => rfl, rfl⟩, fun calm => ?_⟩) ?_)
  · rw [none calm]
    exact Nat.zero_le _
  intro d free taken
  have mine : d ∈ m.free := taken ▸ List.mem_cons_self
  have start := (Stage.start (m := m) d 0).take taken
  rw [add_zero] at start
  have stage := start.turn fun _ => none
  rw [Multiset.cons_zero, ← zero_add ({d} : Multiset Frame), ← @own_empty 0] at stage
  refine spec_bind.mpr (spec_modify.mpr (spec_bind.mpr ?_))
  rw [panicIf, if_neg (by decide), spec_pure, spec_bind]
  set m₁ : Mem := { m with fail := m.fail.tail, free, dir := update m.dir d fun _ => none } with isM₁
  have empty : m₁.dir d = fun _ => none := update_self ..
  rw [← empty] at stage
  have zero : ∀ u, (m₁.dir d).pte u = 0 := fun u => by
    rw [empty]
    rfl
  refine (mapKernel_spec valid apart stage fun k _ u _ => ?_).mono fun b _ result => ?_
  · rw [zero]
    exact fun one => one rfl
  obtain ⟨stage, _, outside, ⟨rfl, inside⟩ | ⟨rfl, dry⟩⟩ := result
  · refine .inr ⟨d, rfl, mine, stage, ⟨inside, fun u _ none => ?_⟩, fun u small => ?_⟩
    · rw [outside u none, zero]
    · rw [outside u fun k member => kernel k member u small, zero]
  refine spec_bind.mpr
    ((freevm_spec pool stage).mono fun _ _ stage' => .inl ⟨rfl, stage'.restored mine, fun calm => ?_⟩)
  have tight : (m.free : Multiset Frame).card ≤ NPDENTRIES + 0 + _ := stage.tight (dry calm) fun u _ small => by
    rw [outside u fun k member => kernel k member u small, zero]
    exact fun one => one rfl
  exact tight

end Kernel

section Copy

/-- The directory `pgdir` maps the pages of [0, PGROUNDUP(sz)), and neither it nor they are free. -/
structure Parent (link : Link) (m : Mem) (pgdir sz : Nat) : Prop where
  below : sz ≤ KERNBASE
  user : ∀ v < KERNBASE / PGSIZE, present ((m.dir pgdir).pte v) ↔ v * PGSIZE < sz
  pool : Pool link (m.free : Multiset Frame)
  taken : pgdir ∉ m.free
  frames : ∀ v < KERNBASE / PGSIZE, v * PGSIZE < sz → frame ((m.dir pgdir).pte v) ∉ m.free

def view (m : Mem) (d v : Nat) : Nat × Bytes := (PTE_FLAGS ((m.dir d).pte v), m.page (frame ((m.dir d).pte v)))

theorem or_one_of_odd (odd : flags % 2 = 1) : flags ||| PTE_P = flags := by
  refine Nat.eq_of_testBit_eq fun i => ?_
  rw [Nat.testBit_or]
  cases i with
  | zero => simp [PTE_P, Nat.testBit_zero, odd]
  | succ i => simp [PTE_P, Nat.testBit_succ]

theorem copyFrom_spec {pgdir sz : Nat} (parent : Parent link m₀ pgdir sz)
    (mine : d ∈ m₀.free) {n : Nat} (fuel : pages sz - v < n)
    (order : v ≤ pages sz) (stage : Stage m₀.free m₀ d (own 0 (m.dir d) + {d}) m)
    (clear : ∀ u, v ≤ u → u < NUSER → ¬present ((m.dir d).pte u)) :
    Spec (copyFrom link pgdir d sz n (v * PGSIZE)) m E fun r m' =>
      r = none ∧ Stage m₀.free m₀ d 0 m' ∧ (m₀.fail = [] → m₀.free.length ≤ NPDENTRIES + pages sz + 2) ∨
      r = some d ∧ Stage m₀.free m₀ d (own 0 (m'.dir d) + {d}) m' ∧ Filled (view m₀ pgdir) m d v (pages sz) m' := by
  have bound := pages_le parent.below
  have limit : NUSER = 2 ^ 19 := rfl
  have other : pgdir ≠ d := fun same => parent.taken (same ▸ mine)
  induction n generalizing v m with
  | zero => exact absurd fuel (Nat.not_lt_zero _)
  | succ n ih =>
    rw [copyFrom]
    by_cases more : v < pages sz
    · have inside := (lt_pages_iff v sz).mp more
      have there := (parent.user v (more.trans_le bound)).mpr inside
      have table := Dir.table_of_present there
      have odd : PTE_FLAGS ((m₀.dir pgdir).pte v) % 2 = 1 := by
        rw [present_iff] at there
        simp only [PTE_FLAGS, PGSIZE]
        omega
      have low : PTE_FLAGS ((m₀.dir pgdir).pte v) < PGSIZE := Nat.mod_lt _ (by decide)
      rw [if_pos inside, spec_bind, find_run (by omega), stage.dir pgdir other, if_pos table]
      refine spec_bind.mpr ?_
      show Spec (panicIf (¬present ((m.dir pgdir).pte v)) _ >>= _) m E _
      rw [stage.dir pgdir other, panicIf, if_neg (not_not.mpr there)]
      refine spec_bind.mpr
        (place_spec (c := m₀.page (frame ((m₀.dir pgdir).pte v))) parent.pool (by omega) (Nat.zero_le v)
        low stage (clear v (Nat.le_refl v) (by omega)) (fun m' page => ?_)
        (fun m' full dir dry => ?_) (fun f m' full same dry => ?_)
          fun f _ stage placed => ?_)
      · rw [page]
        exact stage.page _ (parent.frames v (more.trans_le bound) inside)
      · refine spec_bind.mpr ((freevm_spec parent.pool full).mono fun _ _ stage => .inl ⟨rfl, stage, fun calm => ?_⟩)
        have tight := full.tight (dry calm) fun u high => by
          rw [dir]
          exact clear u high
        rw [Multiset.coe_card, Multiset.card_singleton] at tight
        omega
      · have tight (calm : m₀.fail = []) := full.tight (dry calm) fun u high => by
          rw [same]
          exact clear u high
        rw [Multiset.coe_card, Multiset.card_cons, Multiset.card_singleton] at tight
        rw [Multiset.add_cons] at full
        have usable := parent.pool.usable f (full.mem (Multiset.mem_cons_self _ _))
        refine spec_bind.mpr ((kfree_run usable).mpr (spec_bind.mpr ?_))
        refine (freevm_spec parent.pool (full.give _)).mono fun _ _ stage => .inl ⟨rfl, stage, fun calm => ?_⟩
        exact (tight calm).trans (by omega)
      · have next : uint (v * PGSIZE + PGSIZE) = (v + 1) * PGSIZE := by
          simp only [uint, PGSIZE]
          omega
        rw [or_one_of_odd odd] at placed
        rw [next]
        refine (ih (by omega) more stage fun u low high => ?_).mono fun r _ result => ?_
        · rw [placed.pte, if_neg (by omega)]
          exact clear u (by omega) high
        · obtain failed | ⟨rfl, stage, filled⟩ := result
          · exact .inl failed
          · exact .inr ⟨rfl, stage, filled.cons more placed⟩
    · rw [if_neg (mt (lt_pages_iff v sz).mpr more)]
      exact .inr ⟨rfl, stage, fun _ _ => rfl, fun u _ high => absurd high (by omega), fun _ _ => rfl⟩

theorem frame_injective (nodup : (own lo x).Nodup) (low : lo ≤ u)
    (low' : lo ≤ v) (small : u < NUSER) (small' : v < NUSER)
    (there : present (x.pte u)) (there' : present (x.pte v)) (same : frame (x.pte u) = frame (x.pte v)) : u = v := by
  by_contra other
  rw [own_unmap low small there, Multiset.nodup_cons, same] at nodup
  have stays : (x.setPte u 0).pte v = x.pte v := by
    rw [Dir.pte_setPte (Dir.table_of_present there), if_neg (Ne.symm other)]
  have member := @frame_mem_own v lo (x.setPte u 0) low' small' (by rwa [stays])
  rw [stays] at member
  exact nodup.1 member

/-- The directory `d` is a copy of `pgdir`, on pages that were free. -/
structure Copied (link : Link) (m : Mem) (pgdir sz : Nat) (d : Frame) (m' : Mem) : Prop where
  user : ∀ v < KERNBASE / PGSIZE, present ((m'.dir d).pte v) ↔ v * PGSIZE < sz
  view : ∀ v < KERNBASE / PGSIZE, v * PGSIZE < sz → view m' d v = view m pgdir v
  fresh : ∀ v < KERNBASE / PGSIZE, v * PGSIZE < sz → frame ((m'.dir d).pte v) ∈ m.free
  apart : ∀ u < KERNBASE / PGSIZE, ∀ v < KERNBASE / PGSIZE, u * PGSIZE < sz → v * PGSIZE < sz →
    frame ((m'.dir d).pte u) ≠ frame ((m.dir pgdir).pte v) ∧
    (frame ((m'.dir d).pte u) = frame ((m'.dir d).pte v) → u = v)
  kernel : KernelMapped link (m'.dir d)

theorem Filled.copied {pgdir sz : Nat} {m₁ m' : Mem} (parent : Parent link m pgdir sz) (fresh : Fresh link m d m₁)
    (stage : Stage m.free m d (own 0 (m'.dir d) + {d}) m') (filled : Filled (Vm.view m pgdir) m₁ d 0 (pages sz) m') :
    Copied link m pgdir sz d m' := by
  have bound := pages_le parent.below
  have inside : ∀ v, v * PGSIZE < sz → Vm.view m' d v = Vm.view m pgdir v := fun v last => by
    obtain ⟨f, pte, page⟩ := filled.inside v (Nat.zero_le v) ((lt_pages_iff v sz).mpr last)
    have small : (Vm.view m pgdir v).1 < PGSIZE := Nat.mod_lt _ (by decide)
    have parts : PTE_FLAGS (f * PGSIZE + (Vm.view m pgdir v).1) = (Vm.view m pgdir v).1 ∧
        frame (f * PGSIZE + (Vm.view m pgdir v).1) = f := by
      simp only [PTE_FLAGS, frame, PGSIZE] at small ⊢
      omega
    rw [Vm.view, pte, parts.1, parts.2, page]
  have user : ∀ v < KERNBASE / PGSIZE, present ((m'.dir d).pte v) ↔ v * PGSIZE < sz := fun v small => by
    by_cases last : v * PGSIZE < sz
    · have same := congrArg Prod.fst (inside v last)
      have there := (parent.user v small).mpr last
      rw [present_iff] at there ⊢
      simp only [Vm.view, PTE_FLAGS, PGSIZE] at same
      simp only [last, iff_true]
      omega
    · rw [filled.outside v (.inr (Nat.not_lt.mp (mt (lt_pages_iff v sz).mp last))), fresh.user v small]
      exact iff_of_false (fun one => one rfl) last
  have taken : ∀ v < KERNBASE / PGSIZE, v * PGSIZE < sz → frame ((m'.dir d).pte v) ∈ m.free := fun v small last =>
    stage.mem (Multiset.mem_add.mpr (.inl (frame_mem_own (Nat.zero_le v) small ((user v small).mpr last))))
  have nodup : (own 0 (m'.dir d)).Nodup := by
    have all := parent.pool.nodup
    rw [← stage.pool] at all
    exact Multiset.nodup_of_le ((Multiset.le_add_right _ _).trans (Multiset.le_add_left _ _)) all
  have outside : ∀ u, NUSER ≤ u → (m'.dir d).pte u = (m₁.dir d).pte u :=
    fun u high => filled.outside u (.inr (bound.trans high))
  obtain ⟨valid, -⟩ := kmap_valid link
  refine ⟨user, fun v _ => inside v, taken,
    fun u small v small' last last' => ⟨fun same => ?_, ?_⟩, fun k member u covers => ?_, ?_⟩
  · exact parent.frames v small' last' (same ▸ taken u small last)
  · exact frame_injective nodup (Nat.zero_le u) (Nat.zero_le v) small small'
      ((user u small).mpr last) ((user v small').mpr last')
  · obtain ⟨v, n, range⟩ := valid k member
    rw [outside u (range.2.2.1.trans (range.covers.mp covers).1)]
    exact fresh.kernel.inside k member u covers
  · intro u high none
    rw [outside u high]
    exact fresh.kernel.outside u high none

theorem copyuvm_copies (link : Link) (m : Mem) (pgdir sz : Nat) (parent : Parent link m pgdir sz) :
    ∃ r m', copyuvm link pgdir sz m = .ok (r, m') ∧ m'.dir pgdir = m.dir pgdir ∧
      (∀ v < KERNBASE / PGSIZE, v * PGSIZE < sz → view m' pgdir v = view m pgdir v) ∧
        match r with
        | none => (m'.free : Multiset Frame) = m.free ∧ (m.fail = [] → m.free.length ≤ NPDENTRIES + pages sz + 2)
        | some d => Copied link m pgdir sz d m' := by
  have bound := pages_le parent.below
  have entries : NPDENTRIES * NPTENTRIES = 2 ^ 20 := rfl
  have limit : NUSER = 2 ^ 19 := rfl
  -- The pages of the parent are not free, so what is done with the free ones leaves them as they are.
  have kept : ∀ m' : Mem, m'.dir pgdir = m.dir pgdir → (∀ g ∉ m.free, m'.page g = m.page g) →
      ∀ v < KERNBASE / PGSIZE, v * PGSIZE < sz → view m' pgdir v = view m pgdir v := fun m' dir page v small last => by
    rw [view, dir, page _ (parent.frames v small last)]
    rfl
  have result : Spec (copyuvm link pgdir sz) m (fun _ => False) fun r m' => m'.dir pgdir = m.dir pgdir ∧
      (∀ v < KERNBASE / PGSIZE, v * PGSIZE < sz → view m' pgdir v = view m pgdir v) ∧
        match r with
        | none => (m'.free : Multiset Frame) = m.free ∧ (m.fail = [] → m.free.length ≤ NPDENTRIES + pages sz + 2)
        | some d => Copied link m pgdir sz d m' := by
    refine spec_bind.mpr ((setupkvm_spec parent.pool).mono fun r m₁ first => ?_)
    obtain ⟨rfl, restored, tight⟩ | ⟨d, rfl, fresh⟩ := first
    · have dir := restored.dir pgdir parent.taken
      exact ⟨dir, kept m₁ dir restored.page, restored.free, fun calm => (tight calm).trans (by omega)⟩
    have other : pgdir ≠ d := fun same => parent.taken (same ▸ fresh.mine)
    have run := @copyFrom_spec link m₁ m d 0
      (fun _ => False) pgdir sz parent fresh.mine (NPDENTRIES * NPTENTRIES) (by omega)
      (Nat.zero_le _) fresh.stage fun u _ small => by
        rw [fresh.user u small]
        exact fun one => one rfl
    rw [Nat.zero_mul] at run
    refine run.mono fun r m' result => ?_
    obtain ⟨rfl, stage, tight⟩ | ⟨rfl, stage, filled⟩ := result
    · have restored := stage.restored fresh.mine
      exact ⟨stage.dir pgdir other, kept m' (stage.dir pgdir other) stage.page, restored.free, tight⟩
    · exact ⟨stage.dir pgdir other, kept m' (stage.dir pgdir other) stage.page, filled.copied parent fresh stage⟩
  obtain ⟨r, m', run, all⟩ := result.returns
  exact ⟨r, m', run, all⟩

def roomyMem : Mem := { sampleMem 1 with free := List.range' 1000 1100 }

theorem copyuvm_copies_one : ∃ d m', copyuvm sampleLink 600 (1 * PGSIZE) roomyMem = .ok (some d, m') ∧
    view m' d 0 = (7, fun _ => 7) ∧ frame ((m'.dir d).pte 0) ∈ List.range' 1000 1100 := by
  have small : 1 ≤ NPTENTRIES := by decide
  have free : roomyMem.free = List.range' 1000 1100 := rfl
  have pool : Pool sampleLink (roomyMem.free : Multiset Frame) := by
    refine ⟨Multiset.coe_nodup.mpr (List.nodup_range' ..), fun f member => ?_⟩
    obtain ⟨low, high⟩ := List.mem_range'_1.mp member
    exact usable_sample (by omega) (by omega)
  have first {v : Nat} (last : v * PGSIZE < 1 * PGSIZE) : v = 0 := by
    simp only [PGSIZE] at last
    omega
  have parent : Parent sampleLink roomyMem 600 (1 * PGSIZE) := by
    refine ⟨by decide, sampleMem_ready.user, pool, by rw [free, List.mem_range'_1]; omega, fun v _ last => ?_⟩
    obtain rfl := first last
    have here : frame ((roomyMem.dir 600).pte 0) = 700 + 0 := sampleMem_frame (d := 600) small (by omega)
    rw [here, free, List.mem_range'_1]
    omega
  obtain ⟨r, m', run, -, -, result⟩ := copyuvm_copies sampleLink roomyMem 600 (1 * PGSIZE) parent
  cases r with
  | none =>
    have few := result.2 rfl
    rw [free, List.length_range'] at few
    exact absurd few (by decide)
  | some d =>
    refine ⟨d, m', run, ?_, free ▸ result.fresh 0 (by decide) (by decide)⟩
    rw [result.view 0 (by decide) (by decide), view]
    exact congrArg₂ Prod.mk (by decide) rfl

end Copy

end Xv6.Vm
