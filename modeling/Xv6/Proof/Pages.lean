import Xv6.Kernel.Vm
import Xv6.Library.Spec
import Xv6.Library.Tally

namespace Xv6.Vm
open Xv6.Library
open Function (update update_of_ne update_self update_apply)

variable {link : Link} {m m₀ : Mem} {d f g i u v lo pte newsz oldsz : Nat}
    {x : Dir} {E : Stop → Prop} {o h P : Multiset Frame}
  {Q : Unit → Mem → Prop}

section Entries

def NUSER : Nat := KERNBASE / PGSIZE

theorem present_iff (pte : Nat) : present pte ↔ pte % 2 = 1 := by
  unfold present
  rw [PTE_P, Nat.and_one_is_mod]
  omega

theorem or_flags (f : Frame) {flags : Nat} (small : flags < PGSIZE) : f * PGSIZE ||| flags = f * PGSIZE + flags := by
  rw [Nat.mul_comm]
  exact (@Nat.two_pow_add_eq_or_of_lt 12 flags small f).symm

theorem or_present {flags : Nat} (small : flags < PGSIZE) : flags ||| PTE_P < PGSIZE :=
  Nat.or_lt_two_pow (n := 12) small (by decide)

theorem PDX_page (small : v < 2 ^ 20) : PDX (v * PGSIZE) = v / NPTENTRIES := by
  simp only [PDX, PGSIZE, NPTENTRIES, NPDENTRIES]
  omega

theorem walk_page (small : v < 2 ^ 20) : PDX (v * PGSIZE) * NPTENTRIES + PTX (v * PGSIZE) = v := by
  simp only [PDX, PTX, PGSIZE, NPTENTRIES, NPDENTRIES]
  omega

theorem Dir.pte_setPte (table : (x (v / NPTENTRIES)).isSome) :
    (x.setPte v pte).pte u = if u = v then pte else x.pte u := by
  obtain ⟨t, there⟩ := Option.isSome_iff_exists.mp table
  unfold Dir.pte Dir.setPte
  by_cases block : u / NPTENTRIES = v / NPTENTRIES
  · rw [block, update_self, there]
    simp only [Option.map_some, Option.elim_some, update_apply]
    exact if_congr (by simp only [NPTENTRIES] at block ⊢; omega) rfl rfl
  · rw [update_of_ne block, if_neg fun same => block (congrArg (· / NPTENTRIES) same)]

theorem Dir.pte_table (absent : x i = none) : Dir.pte (update x i (some ⟨f, fun _ => 0⟩)) u = x.pte u := by
  unfold Dir.pte
  by_cases block : u / NPTENTRIES = i
  · rw [block, update_self, absent]
    rfl
  · rw [update_of_ne block]

theorem Dir.pte_absent (absent : x (v / NPTENTRIES) = none) : x.pte v = 0 := by
  unfold Dir.pte
  rw [absent]
  rfl

theorem Dir.table_of_present (mapped : present (x.pte v)) : (x (v / NPTENTRIES)).isSome := by
  cases table : x (v / NPTENTRIES) with
  | none =>
    rw [Dir.pte_absent table] at mapped
    exact absurd rfl mapped
  | some t => rfl

end Entries

section Owners

def Table.owned (t : Option Table) : Multiset Frame := t.elim 0 fun t => {t.frame}

def mapped (pte : Nat) : Multiset Frame := if present pte then {frame pte} else 0

def tables (i : Nat) (x : Dir) : Multiset Frame := ∑ j ∈ Finset.Ico i NPDENTRIES, Table.owned (x j)

def users (lo : Nat) (x : Dir) : Multiset Frame := ∑ v ∈ Finset.Ico lo NUSER, mapped (x.pte v)

def own (lo : Nat) (x : Dir) : Multiset Frame := tables 0 x + users lo x

theorem owned_setPte (x : Dir) (v pte j : Nat) : Table.owned (x.setPte v pte j) = Table.owned (x j) := by
  unfold Dir.setPte
  by_cases block : j = v / NPTENTRIES
  · rw [block, update_self]
    cases x (v / NPTENTRIES) <;> rfl
  · rw [update_of_ne block]

theorem tables_setPte (x : Dir) (v pte : Nat) : tables i (x.setPte v pte) = tables i x := by
  simp only [tables, owned_setPte]

theorem users_setPte (table : (x (v / NPTENTRIES)).isSome) (low : lo ≤ v) (small : v < NUSER) :
    users lo (x.setPte v pte) + mapped (x.pte v) = users lo x + mapped pte := by
  have swap := sum_swap_on (f := fun w => mapped ((x.setPte v pte).pte w)) (g := fun w => mapped (x.pte w))
    (Finset.mem_Ico.mpr ⟨low, small⟩) fun w other => by rw [Dir.pte_setPte table, if_neg other]
  have here : (x.setPte v pte).pte v = pte := by rw [Dir.pte_setPte table, if_pos rfl]
  simp only [here] at swap
  exact swap

theorem own_setPte_outside (table : (x (v / NPTENTRIES)).isSome) (outside : lo = NUSER ∨ NUSER ≤ v) :
    own lo (x.setPte v pte) = own lo x := by
  unfold own
  rw [tables_setPte]
  congr 1
  refine Finset.sum_congr rfl fun w inside => ?_
  obtain ⟨_, _⟩ := Finset.mem_Ico.mp inside
  rw [Dir.pte_setPte table, if_neg (by omega)]

theorem own_map (table : (x (v / NPTENTRIES)).isSome) (low : lo ≤ v) (small : v < NUSER) (free : ¬present (x.pte v))
    (new : present pte) : own lo (x.setPte v pte) = frame pte ::ₘ own lo x := by
  have change := @users_setPte v lo pte x table low small
  rw [mapped, if_neg free, add_zero, mapped, if_pos new] at change
  rw [own, tables_setPte, change, ← add_assoc, Multiset.add_comm _ {frame pte}, Multiset.singleton_add]
  rfl

theorem own_unmap (low : lo ≤ v) (small : v < NUSER) (there : present (x.pte v)) :
    own lo x = frame (x.pte v) ::ₘ own lo (x.setPte v 0) := by
  have change := @users_setPte v lo 0 x (Dir.table_of_present there) low small
  have zero : mapped 0 = 0 := if_neg fun one => one rfl
  rw [zero, add_zero, mapped, if_pos there] at change
  rw [own, ← change, ← add_assoc, Multiset.add_comm _ {frame (x.pte v)}, Multiset.singleton_add, own, tables_setPte]

theorem own_table (absent : x i = none) (small : i < NPDENTRIES) :
    own lo (update x i (some ⟨f, fun _ => 0⟩)) = f ::ₘ own lo x := by
  have swap := sum_swap_on (f := fun j => Table.owned (update x i (some ⟨f, fun _ => 0⟩) j))
    (g := fun j => Table.owned (x j)) (Finset.mem_Ico.mpr ⟨Nat.zero_le i, small⟩) fun j other => by
    rw [update_of_ne other]
  have new : tables 0 (update x i (some ⟨f, fun _ => 0⟩)) = tables 0 x + {f} := by
    have none : Table.owned none = 0 := rfl
    simp only [absent, none, add_zero, update_self] at swap
    exact swap
  have same : users lo (update x i (some ⟨f, fun _ => 0⟩)) = users lo x := by simp only [users, Dir.pte_table absent]
  rw [own, new, same, Multiset.add_comm _ {f}, add_assoc, Multiset.singleton_add]
  rfl

theorem tables_succ (x : Dir) (small : i < NPDENTRIES) : tables i x = Table.owned (x i) + tables (i + 1) x :=
  Finset.sum_eq_sum_Ico_succ_bot small fun j => Table.owned (x j)

theorem frame_mem_own (low : lo ≤ v) (small : v < NUSER) (there : present (x.pte v)) : frame (x.pte v) ∈ own lo x := by
  rw [own_unmap low small there]
  exact Multiset.mem_cons_self _ _

end Owners

section Stages

def Usable (link : Link) (f : Nat) : Prop := V2P link.stop ≤ f * PGSIZE ∧ f * PGSIZE < PHYSTOP

structure Pool (link : Link) (P : Multiset Frame) : Prop where
  nodup : P.Nodup
  usable : ∀ f ∈ P, Usable link f

structure Stage (P : Multiset Frame) (m₀ : Mem) (d : Frame) (o : Multiset Frame) (m : Mem) : Prop where
  pool : (m.free : Multiset Frame) + o = P
  page : ∀ g ∉ P, m.page g = m₀.page g
  dir : ∀ e ≠ d, m.dir e = m₀.dir e
  task : m.task = m₀.task
  calm : m₀.fail = [] → m.fail = []

def Dry (m₀ m : Mem) : Prop := m₀.fail = [] → m.free = []

theorem Stage.start (d : Frame) (o : Multiset Frame) : Stage ((m.free : Multiset Frame) + o) m d o m :=
  ⟨rfl, fun _ _ => rfl, fun _ _ => rfl, rfl, id⟩

theorem Stage.take (stage : Stage P m₀ d o m) {free : List Frame} (first : m.free = f :: free) :
    Stage P m₀ d (f ::ₘ o) { m with fail := m.fail.tail, free } := by
  refine ⟨?_, stage.page, stage.dir, stage.task, fun calm => ?_⟩
  · rw [← stage.pool, first, ← Multiset.cons_coe, Multiset.cons_add, Multiset.add_cons]
  · show m.fail.tail = []
    rw [stage.calm calm]
    rfl

theorem Stage.wait (stage : Stage P m₀ d o m) : Stage P m₀ d o { m with fail := m.fail.tail } := by
  refine ⟨stage.pool, stage.page, stage.dir, stage.task, fun calm => ?_⟩
  show m.fail.tail = []
  rw [stage.calm calm]
  rfl

theorem Stage.mem (stage : Stage P m₀ d o m) (taken : f ∈ o) : f ∈ P := by
  rw [← stage.pool]
  exact Multiset.mem_add.mpr (.inr taken)

theorem Stage.write (stage : Stage P m₀ d o m) (taken : f ∈ P) (b : Bytes) :
    Stage P m₀ d o { m with page := update m.page f b } := by
  refine ⟨stage.pool, fun g outside => ?_, stage.dir, stage.task, stage.calm⟩
  show update m.page f b g = _
  have other : g ≠ f := fun same => outside (same ▸ taken)
  rw [update_of_ne other, stage.page g outside]

theorem Stage.turn (stage : Stage P m₀ d o m) (y : Dir) : Stage P m₀ d o { m with dir := update m.dir d y } := by
  refine ⟨stage.pool, stage.page, fun e other => ?_, stage.task, stage.calm⟩
  show update m.dir d y e = _
  rw [update_of_ne other, stage.dir e other]

theorem Stage.give (stage : Stage P m₀ d (f ::ₘ o) m) (b : Bytes) :
    Stage P m₀ d o { m with page := update m.page f b, free := f :: m.free } := by
  have written := stage.write (stage.mem (Multiset.mem_cons_self f o)) b
  refine ⟨?_, written.page, written.dir, written.task, written.calm⟩
  rw [← stage.pool]
  show ((f :: m.free : List Frame) : Multiset Frame) + o = _
  rw [← Multiset.cons_coe, Multiset.cons_add, Multiset.add_cons]

theorem kalloc_spec {Q : Option Frame → Mem → Prop}
    (dry : (m.fail = [] → m.free = []) → Q none { m with fail := m.fail.tail })
    (take : ∀ f free, m.free = f :: free → Q (some f) { m with fail := m.fail.tail, free }) : Spec kalloc m E Q := by
  rw [kalloc, spec_bind, spec_get]
  split
  · next failing => exact dry fun calm => by simp [calm] at failing
  · next empty _ => exact dry fun _ => empty
  · next f free first _ => exact take f free first

theorem kfree_run (usable : Usable link f) : Spec (kfree link (f * PGSIZE)) m E Q ↔
    Q () { m with page := update m.page f fun _ => 1, free := f :: m.free } := by
  obtain ⟨_, _⟩ := usable
  have whole : f * PGSIZE / PGSIZE = f := Nat.mul_div_cancel f (by decide)
  have aligned : f * PGSIZE % PGSIZE = 0 := Nat.mul_mod_left f PGSIZE
  rw [kfree, panicIf, if_neg fun _ => ?_, whole]
  · exact Iff.rfl
  · omega

theorem find_run (small : v < 2 ^ 20) {Q : Option Nat → Mem → Prop} : Spec (walkpgdir d (v * PGSIZE) false) m E Q ↔
    Q (if (m.dir d (v / NPTENTRIES)).isSome then some v else none) m := by
  rw [walkpgdir, spec_bind, spec_get]
  rw [walk_page small, PDX_page small]
  dsimp only
  cases m.dir d (v / NPTENTRIES) <;> rfl

end Stages

section Deallocation

def pages (sz : Nat) : Nat := (sz + PGSIZE - 1) / PGSIZE

theorem lt_pages_iff (v sz : Nat) : v < pages sz ↔ v * PGSIZE < sz := by
  simp only [pages, PGSIZE]
  omega

theorem PGROUNDUP_eq {sz : Nat} (small : sz ≤ KERNBASE) : PGROUNDUP sz = pages sz * PGSIZE := by
  simp only [PGROUNDUP, pages, uint, PGSIZE, KERNBASE] at small ⊢
  omega

theorem pages_le {sz : Nat} (small : sz ≤ KERNBASE) : pages sz ≤ NUSER := by
  simp only [pages, NUSER, PGSIZE, KERNBASE] at small ⊢
  omega

def plainFrom (link : Link) (d : Frame) (first last : Nat) : M Unit :=
  (List.range' first (last - first)).forM (clearPage link d)

def plainDeallocuvm (link : Link) (d oldsz newsz : Nat) : M Nat := do
  if oldsz ≤ newsz then return oldsz
  else do
    plainFrom link d (pages newsz) (pages oldsz)
    return newsz

def Mem.cleared (d : Frame) (m : Mem) (v : Nat) : Mem :=
  if present ((m.dir d).pte v) then
    { m with
      free := frame ((m.dir d).pte v) :: m.free
      page := update m.page (frame ((m.dir d).pte v)) fun _ => 1
      dir := update m.dir d ((m.dir d).setPte v 0) }
  else m

theorem Usable.pos (usable : Usable link f) : f ≠ 0 := by
  rintro rfl
  have := link.within
  have := link.above
  have := link.below
  simp only [Usable, V2P, uint, KERNLINK, KERNBASE, EXTMEM, PHYSTOP] at *
  omega

theorem clearPage_run (usable : present ((m.dir d).pte v) → Usable link (frame ((m.dir d).pte v))) :
    Spec (clearPage link d v) m E Q ↔ Q () (m.cleared d v) := by
  rw [clearPage, spec_bind, Mem.cleared]
  by_cases there : present ((m.dir d).pte v)
  · have run Q := @kfree_run link m _ E Q (usable there)
    show Spec (if present ((m.dir d).pte v) then _ else _) m E Q ↔ _
    rw [if_pos there, if_pos there, panicIf, if_neg (usable there).pos, spec_bind, spec_pure, spec_bind, run]
    rfl
  · show Spec (if present ((m.dir d).pte v) then _ else _) m E Q ↔ _
    rw [if_neg there, if_neg there]
    rfl

theorem plainFrom_succ {first last : Nat} (more : first < last) :
    plainFrom link d first last = clearPage link d first >>= fun _ => plainFrom link d (first + 1) last := by
  unfold plainFrom
  rw [show last - first = last - (first + 1) + 1 by omega, List.range'_succ]
  rfl

theorem plainFrom_done {first last : Nat} (done : last ≤ first) : plainFrom link d first last = pure () := by
  unfold plainFrom
  rw [Nat.sub_eq_zero_of_le done]
  rfl

theorem clearPage_absent (absent : m.dir d (v / NPTENTRIES) = none) : Spec (clearPage link d v) m E Q ↔ Q () m := by
  have zero : ¬present ((m.dir d).pte v) := by
    rw [Dir.pte_absent absent]
    exact fun there => there rfl
  rw [clearPage_run fun there => absurd there zero, Mem.cleared, if_neg zero]

theorem plain_skip {first : Nat} (last : Nat)
    (absent : ∀ v, first ≤ v → v < first + i → m.dir d (v / NPTENTRIES) = none) :
    Spec (plainFrom link d first last) m E Q ↔ Spec (plainFrom link d (first + i) last) m E Q := by
  induction i generalizing first with
  | zero => rfl
  | succ i ih =>
    rw [Nat.add_comm i, ← Nat.add_assoc, ← ih fun v le _ => absent v (Nat.le_of_succ_le le) (by omega)]
    by_cases more : first < last
    · rw [plainFrom_succ more, spec_bind, clearPage_absent (absent first (Nat.le_refl first) (by omega))]
    · rw [plainFrom_done (Nat.not_lt.mp more), plainFrom_done (Nat.le_succ_of_le (Nat.not_lt.mp more))]

theorem next_table (small : v < NUSER) :
    uint (uint (PGADDR (PDX (v * PGSIZE) + 1) 0 0 + 2 ^ 32 - PGSIZE) + PGSIZE) =
      (v / NPTENTRIES + 1) * NPTENTRIES * PGSIZE := by
  have limit : NUSER = 2 ^ 19 := rfl
  rw [PDX_page (by omega)]
  simp only [PGADDR, uint, PGSIZE, NPTENTRIES, Nat.zero_mul, Nat.or_zero]
  omega

theorem deallocFrom_iff (top : oldsz ≤ KERNBASE) {n : Nat} (small : v ≤ NUSER) (fuel : pages oldsz - v < n) :
    Spec (deallocFrom link d oldsz n (v * PGSIZE)) m E Q ↔ Spec (plainFrom link d v (pages oldsz)) m E Q := by
  have bound := pages_le top
  have limit : NUSER = 2 ^ 19 := rfl
  induction n generalizing v m with
  | zero => exact absurd fuel (Nat.not_lt_zero _)
  | succ n ih =>
    rw [deallocFrom]
    by_cases more : v < pages oldsz
    · rw [if_pos ((lt_pages_iff v oldsz).mp more), spec_bind, find_run (by omega)]
      cases table : m.dir d (v / NPTENTRIES) with
      | none =>
        have skip := @plain_skip link m d ((v / NPTENTRIES + 1) * NPTENTRIES - v) E Q v (pages oldsz) fun u _ lt => by
          have block : u / NPTENTRIES = v / NPTENTRIES := by
            simp only [NPTENTRIES] at lt ⊢
            omega
          rw [block, table]
        have step : v < (v / NPTENTRIES + 1) * NPTENTRIES ∧ (v / NPTENTRIES + 1) * NPTENTRIES ≤ NUSER := by
          simp only [NPTENTRIES, limit]
          omega
        have jump := ih (m := m) step.2 (by omega)
        rw [skip, Nat.add_sub_cancel' (Nat.le_of_lt step.1)]
        rw [← next_table (by omega)] at jump
        exact jump
      | some t =>
        have next : uint (v * PGSIZE + PGSIZE) = (v + 1) * PGSIZE := by
          simp only [uint, PGSIZE]
          omega
        rw [plainFrom_succ more, spec_bind]
        simp only [← ih (show v + 1 ≤ NUSER by omega) (show pages oldsz - (v + 1) < n by omega)]
        rw [← next, ← spec_bind]
        rfl
    · rw [if_neg (mt (lt_pages_iff v oldsz).mpr more), plainFrom_done (Nat.not_lt.mp more)]

theorem pte_cleared : ((m.cleared d v).dir d).pte u = if u = v ∧
    present ((m.dir d).pte u) then 0 else (m.dir d).pte u := by
  unfold Mem.cleared
  by_cases there : present ((m.dir d).pte v)
  · rw [if_pos there]
    simp only [update_self, Dir.pte_setPte (Dir.table_of_present there)]
    refine if_congr (iff_self_and.mpr ?_) rfl rfl
    rintro rfl
    exact there
  · rw [if_neg there, if_neg]
    rintro ⟨rfl, here⟩
    exact there here

theorem pte_clear (l : List Nat) :
    ((l.foldl (Mem.cleared d) m).dir d).pte u = if u ∈ l ∧ present ((m.dir d).pte u) then 0 else (m.dir d).pte u := by
  induction l generalizing m with
  | nil => exact (if_neg fun inside => List.not_mem_nil inside.1).symm
  | cons v l ih =>
    rw [List.foldl_cons, ih, pte_cleared]
    by_cases there : present ((m.dir d).pte u)
    · have zero : ¬present 0 := fun one => one rfl
      obtain rfl | other := eq_or_ne u v
      · simp [there, zero]
      · simp [other]
    · simp [there]

theorem forM_run {l : List Nat} (usable : ∀ v ∈ l, present ((m.dir d).pte v) → Usable link (frame ((m.dir d).pte v))) :
    Spec (l.forM (clearPage link d)) m E Q ↔ Q () (l.foldl (Mem.cleared d) m) := by
  induction l generalizing m with
  | nil => exact Iff.rfl
  | cons v l ih =>
    show Spec (clearPage link d v >>= fun _ => l.forM (clearPage link d)) m E Q ↔ _
    rw [spec_bind, clearPage_run (usable v List.mem_cons_self), ih, List.foldl_cons]
    intro u member
    rw [pte_cleared]
    split_ifs with this
    · exact fun one => absurd rfl one
    · exact usable u (List.mem_cons_of_mem v member)

theorem deallocuvm_run (top : oldsz ≤ KERNBASE)
    (usable : ∀ v, pages newsz ≤ v → v < NUSER → present ((m.dir d).pte v) → Usable link (frame ((m.dir d).pte v)))
    {Q : Nat → Mem → Prop} : Spec (deallocuvm link d oldsz newsz) m E Q ↔
      Q (min oldsz newsz) ((List.range' (pages newsz) (pages oldsz - pages newsz)).foldl (Mem.cleared d) m) := by
  rw [deallocuvm]
  have bound := pages_le top
  have limit : NUSER = 2 ^ 19 := rfl
  have entries : NPDENTRIES * NPTENTRIES = 2 ^ 20 := rfl
  by_cases grows : oldsz ≤ newsz
  · have none : pages oldsz - pages newsz = 0 := by
      simp only [pages, PGSIZE]
      omega
    rw [if_pos grows, none, min_eq_left grows]
    exact Iff.rfl
  have small : newsz ≤ KERNBASE := by omega
  have under := pages_le small
  rw [if_neg grows, spec_bind, PGROUNDUP_eq small,
    deallocFrom_iff top under (by omega), plainFrom, forM_run, min_eq_right (by omega)]
  · exact Iff.rfl
  · intro v inside
    rw [List.mem_range'_1] at inside
    exact usable v inside.1 (by omega)

theorem deallocuvm_eq_plain (m : Mem) (top : oldsz ≤ KERNBASE) :
    deallocuvm link d oldsz newsz m = plainDeallocuvm link d oldsz newsz m := by
  refine spec_ext fun E Q => ?_
  have limit : NUSER = 2 ^ 19 := rfl
  have entries : NPDENTRIES * NPTENTRIES = 2 ^ 20 := rfl
  have bound := pages_le top
  rw [deallocuvm, plainDeallocuvm]
  by_cases grows : oldsz ≤ newsz
  · rw [if_pos grows, if_pos grows]
  · have small : newsz ≤ KERNBASE := by omega
    rw [if_neg grows, if_neg grows, spec_bind, spec_bind,
      PGROUNDUP_eq small, deallocFrom_iff top (pages_le small) (by omega)]

theorem table_clear (l : List Nat) (i : Nat) :
    ((l.foldl (Mem.cleared d) m).dir d i).map Table.frame = (m.dir d i).map Table.frame := by
  induction l generalizing m with
  | nil => rfl
  | cons v l ih =>
    rw [List.foldl_cons, ih, Mem.cleared]
    split_ifs
    · simp only [update_self, Dir.setPte, update_apply]
      split_ifs with at_v
      · rw [at_v, Option.map_map]
        rfl
      · rfl
    · rfl

def released (x : Dir) (l : List Nat) : List Frame := (l.filter fun v => present (x.pte v)).map fun v => frame (x.pte v)

theorem released_cons (x : Dir) (v : Nat) (l : List Nat) :
    released x (v :: l) = if present (x.pte v) then frame (x.pte v) :: released x l else released x l := by
  unfold released
  by_cases there : present (x.pte v) <;> simp [there]

theorem released_cleared {l : List Nat} (apart : v ∉ l) :
    released ((m.cleared d v).dir d) l = released (m.dir d) l := by
  have same : ∀ u ∈ l, ((m.cleared d v).dir d).pte u = (m.dir d).pte u := fun u member => by
    have other : u ≠ v := fun same => apart (same ▸ member)
    rw [pte_cleared, if_neg fun both => other both.1]
  unfold released
  rw [List.filter_congr fun u member => by rw [same u member]]
  exact List.map_congr_left fun u member => by rw [same u (List.mem_filter.mp member).1]

theorem clear_spec {l : List Nat} (nodup : l.Nodup) :
    (l.foldl (Mem.cleared d) m).free = (released (m.dir d) l).reverse ++ m.free ∧
      (∀ g, (l.foldl (Mem.cleared d) m).page g = if g ∈ released (m.dir d) l then fun _ => 1 else m.page g) ∧
        (∀ e ≠ d, (l.foldl (Mem.cleared d) m).dir e = m.dir e) ∧
          (l.foldl (Mem.cleared d) m).task = m.task ∧ (l.foldl (Mem.cleared d) m).fail = m.fail := by
  induction l generalizing m with
  | nil => exact ⟨rfl, fun g => (if_neg List.not_mem_nil).symm, fun _ _ => rfl, rfl, rfl⟩
  | cons v l ih =>
    obtain ⟨apart, nodup⟩ := List.nodup_cons.mp nodup
    obtain ⟨free, page, dir, task, fail⟩ := @ih (m.cleared d v) nodup
    rw [released_cleared apart] at free page
    simp only [List.foldl_cons, released_cons]
    by_cases there : present ((m.dir d).pte v)
    · have same : m.cleared d v = _ := if_pos there
      rw [if_pos there, free, task, fail, same]
      refine ⟨by simp, fun g => ?_, fun e other => ?_, rfl, rfl⟩
      · rw [← same, page g, same]
        by_cases here : g = frame ((m.dir d).pte v) <;> simp [here, update_of_ne]
      · rw [← same, dir e other, same]
        exact update_of_ne other _ _
    · have same : m.cleared d v = m := if_neg there
      rw [if_neg there]
      rw [same] at free page dir task fail ⊢
      exact ⟨free, page, dir, task, fail⟩

end Deallocation

section Exact

def Doomed (m : Mem) (d oldsz newsz v : Nat) : Prop := pages newsz ≤ v ∧ v * PGSIZE < oldsz ∧ present ((m.dir d).pte v)

instance (m : Mem) (d oldsz newsz v : Nat) : Decidable (Doomed m d oldsz newsz v) := inferInstanceAs (Decidable (_ ∧ _))

/-- The entries that are doomed have been cleared, their pages have been freed, and nothing else has changed. -/
structure Deallocated (m : Mem) (d oldsz newsz : Nat) (m' : Mem) : Prop where
  pte : ∀ v, (m'.dir d).pte v = if Doomed m d oldsz newsz v then 0 else (m.dir d).pte v
  tables : ∀ i, (m'.dir d i).map Table.frame = (m.dir d i).map Table.frame
  others : ∀ e ≠ d, m'.dir e = m.dir e
  free : ∃ l, m'.free = l ++ m.free ∧ l.Nodup ∧
    (∀ f, f ∈ l ↔ ∃ v, Doomed m d oldsz newsz v ∧ f = frame ((m.dir d).pte v)) ∧
    ∀ g, m'.page g = if g ∈ l then fun _ => 1 else m.page g
  rest : m'.task = m.task ∧ m'.fail = m.fail

theorem deallocuvm_exact (link : Link) (m : Mem) (d oldsz newsz : Nat) (top : oldsz ≤ KERNBASE)
    (usable : ∀ v < KERNBASE / PGSIZE, present ((m.dir d).pte v) → Usable link (frame ((m.dir d).pte v)))
    (distinct : ∀ u < KERNBASE / PGSIZE, ∀ v < KERNBASE / PGSIZE, present ((m.dir d).pte u) →
      present ((m.dir d).pte v) →
      frame ((m.dir d).pte u) = frame ((m.dir d).pte v) → u = v) :
    deallocuvm link d oldsz newsz m = plainDeallocuvm link d oldsz newsz m ∧
      ∃ m', deallocuvm link d oldsz newsz m = .ok (min oldsz newsz, m') ∧ Deallocated m d oldsz newsz m' := by
  have bound := pages_le top
  have inside : ∀ v, v ∈ List.range' (pages newsz) (pages oldsz - pages newsz) ↔
    pages newsz ≤ v ∧ v * PGSIZE < oldsz := by
    intro v
    rw [List.mem_range'_1, ← lt_pages_iff]
    omega
  have doomed : ∀ v, v ∈ List.range' (pages newsz) (pages oldsz - pages newsz) ∧ present ((m.dir d).pte v) ↔
      Doomed m d oldsz newsz v := fun v => by rw [inside, Doomed, and_assoc]
  have nodup : (List.range' (pages newsz) (pages oldsz - pages newsz)).Nodup := List.nodup_range'
  obtain ⟨free, page, dir, rest⟩ := @clear_spec m d _ nodup
  refine ⟨deallocuvm_eq_plain m top, _, spec_eq_ok.mp ((deallocuvm_run top fun v _ => usable v).mpr ⟨rfl, rfl⟩), ?_⟩
  refine ⟨fun v => ?_, table_clear _, dir, ⟨_, free, ?_, fun f => ?_, fun g => ?_⟩, rest⟩
  · rw [pte_clear]
    exact if_congr (doomed v) rfl rfl
  · rw [List.nodup_reverse]
    refine List.Nodup.map_on (fun u first v second same => ?_) (nodup.filter _)
    simp only [List.mem_filter, decide_eq_true_eq, inside, ← lt_pages_iff] at first second
    exact distinct u (first.1.2.trans_le bound) v (second.1.2.trans_le bound) first.2 second.2 same
  · simp only [List.mem_reverse, released, List.mem_map, List.mem_filter, decide_eq_true_eq, doomed, @eq_comm _ _ f]
  · simp only [page g, List.mem_reverse]

def sampleLink : Link := ⟨0x80108000, 0x80115000, by decide, by decide, by decide, by decide⟩

def sampleMem (k : Nat) : Mem where
  free := [601, 602, 603]
  fail := []
  page := fun _ _ => 7
  dir := fun _ i => if i = 0 then some ⟨650, fun j => if j < k then (700 + j) * PGSIZE + 7 else 0⟩ else none
  task := ⟨600, k * PGSIZE⟩

theorem usable_sample (low : 300 ≤ f) (high : f < 57344) : Usable sampleLink f := by
  simp only [Usable, sampleLink, V2P, uint, KERNBASE, PGSIZE, PHYSTOP]
  omega

theorem sampleMem_pte {k : Nat} (small : k ≤ NPTENTRIES) :
    ((sampleMem k).dir d).pte v = if v < k then (700 + v) * PGSIZE + 7 else 0 := by
  unfold Dir.pte sampleMem
  by_cases first : v / NPTENTRIES = 0
  · have index : v % NPTENTRIES = v := by
      simp only [NPTENTRIES] at first ⊢
      omega
    simp [first, index]
  have above : ¬v < k := by
    simp only [NPTENTRIES] at first small
    omega
  simp [first, above]

theorem sampleMem_present {k : Nat} (small : k ≤ NPTENTRIES) : present (((sampleMem k).dir d).pte v) ↔ v < k := by
  rw [present_iff, sampleMem_pte small]
  split_ifs with below
  · simp only [PGSIZE, below, iff_true]
    omega
  · simp only [below]

theorem sampleMem_frame {k : Nat} (small : k ≤ NPTENTRIES) (below : v < k) :
    frame (((sampleMem k).dir d).pte v) = 700 + v := by
  rw [sampleMem_pte small, if_pos below]
  simp only [frame, PGSIZE]
  omega

theorem deallocuvm_exact_two : ∃ m', deallocuvm sampleLink 600 8192 1 (sampleMem 2) = .ok (1, m') ∧
    Deallocated (sampleMem 2) 600 8192 1 m' := by
  have small : 2 ≤ NPTENTRIES := by decide
  refine (deallocuvm_exact sampleLink (sampleMem 2) 600 8192 1 (by decide)
    (fun v _ there => ?_) fun u _ v _ first second same => ?_).2
  · have below := (sampleMem_present small).mp there
    rw [sampleMem_frame small below]
    exact usable_sample (by omega) (by omega)
  · rw [sampleMem_present small] at first second
    rw [sampleMem_frame small first, sampleMem_frame small second] at same
    exact Nat.add_left_cancel same

end Exact

section Stages

theorem Stage.cleared (stage : Stage P m₀ d (own lo (m.dir d) + h) m) (low : lo ≤ v) (small : v < NUSER) :
    Stage P m₀ d (own lo ((m.cleared d v).dir d) + h) (m.cleared d v) := by
  unfold Mem.cleared
  split_ifs with there
  · rw [own_unmap low small there, Multiset.cons_add] at stage
    show Stage P m₀ d (own lo (update m.dir d _ d) + h) _
    rw [update_self]
    exact (stage.give _).turn _
  · exact stage

theorem Stage.clear {l : List Nat} (stage : Stage P m₀ d (own lo (m.dir d) + h) m)
    (inside : ∀ v ∈ l, lo ≤ v ∧ v < NUSER) :
    Stage P m₀ d (own lo ((l.foldl (Mem.cleared d) m).dir d) + h) (l.foldl (Mem.cleared d) m) := by
  induction l generalizing m with
  | nil => exact stage
  | cons v l ih =>
    obtain ⟨low, small⟩ := inside v List.mem_cons_self
    exact ih (stage.cleared low small) fun u member => inside u (List.mem_cons_of_mem v member)

theorem deallocuvm_spec (pool : Pool link P) (stage : Stage P m₀ d (own lo (m.dir d) + h) m) (top : oldsz ≤ KERNBASE)
    (low : lo ≤ pages newsz) {Q : Nat → Mem → Prop} (next : ∀ m', Stage P m₀ d (own lo (m'.dir d) + h) m' →
      (∀ v, (m'.dir d).pte v = if Doomed m d oldsz newsz v then 0 else (m.dir d).pte v) → Q (min oldsz newsz) m') :
    Spec (deallocuvm link d oldsz newsz) m E Q := by
  have bound := pages_le top
  refine (deallocuvm_run top fun v first small there => ?_).mpr (next _ (stage.clear fun v inside => ?_) fun v => ?_)
  · exact pool.usable _ (stage.mem (Multiset.mem_add.mpr (.inl (frame_mem_own (low.trans first) small there))))
  · rw [List.mem_range'_1] at inside
    omega
  · rw [pte_clear]
    refine if_congr ?_ rfl rfl
    rw [Doomed, List.mem_range'_1, ← lt_pages_iff, ← and_assoc]
    refine and_congr_left fun _ => ?_
    omega

theorem Pool.of_le {P' : Multiset Frame} (pool : Pool link P) (le : P' ≤ P) : Pool link P' :=
  ⟨Multiset.nodup_of_le le pool.nodup, fun f member => pool.usable f (Multiset.mem_of_le le member)⟩

end Stages

end Xv6.Vm
