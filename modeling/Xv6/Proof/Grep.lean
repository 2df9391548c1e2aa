import Xv6.User.Grep

namespace Xv6.Grep
open Xv6.Library

variable {c x : Byte} {re text line rest buf p : List Byte}
    {pieces : List (List Byte)} {here : List Byte → Bool} {n : Nat}

section Matcher

inductive Item where
  | one (c : Byte)
  | star (c : Byte)
  | stop

def items : List Byte → List Item
  | [] => []
  | [c] => if c = dollar then [.stop] else [.one c]
  | c :: d :: re => if d = star then .star c :: items re else .one c :: items (d :: re)

def Fits (c x : Byte) : Prop := c = dot ∨ c = x

/-- The items match the first string when the second one follows it. -/
inductive Matches : List Item → List Byte → List Byte → Prop where
  | nil {rest : List Byte} : Matches [] [] rest
  | one {c x : Byte} {is : List Item} {u rest : List Byte} : Fits c x →
    Matches is u rest → Matches (.one c :: is) (x :: u) rest
  | star {c : Byte} {is : List Item} {w u rest : List Byte} : (∀ x ∈ w, Fits c x) → Matches is u rest →
      Matches (.star c :: is) (w ++ u) rest
  | stop {is : List Item} : Matches is [] [] → Matches (.stop :: is) [] []

theorem matchstar_iff : matchstar c here text = true ↔ ∃ w t, text = w ++ t ∧ (∀ x ∈ w, Fits c x) ∧ here t = true := by
  induction text with
  | nil =>
    constructor
    · intro found
      exact ⟨[], [], rfl, fun x member => absurd member List.not_mem_nil, found⟩
    · rintro ⟨w, t, split, -, found⟩
      rw [(List.append_eq_nil_iff.mp split.symm).2] at found
      exact found
  | cons x text ih =>
    rw [matchstar, Bool.or_eq_true, Bool.and_eq_true, Bool.or_eq_true, decide_eq_true_eq, decide_eq_true_eq, ih]
    constructor
    · rintro (found | ⟨fits, w, t, rfl, all, found⟩)
      · exact ⟨[], x :: text, rfl, fun y member => absurd member List.not_mem_nil, found⟩
      refine ⟨x :: w, t, rfl, fun y member => ?_, found⟩
      obtain rfl | member := List.mem_cons.mp member
      · exact fits.symm.imp_right Eq.symm
      · exact all y member
    rintro ⟨w, t, split, all, found⟩
    cases w with
    | nil =>
      cases split
      exact .inl found
    | cons y w =>
      cases split
      exact .inr ⟨(all _ List.mem_cons_self).symm.imp_left Eq.symm, w, t,
        rfl, fun y member => all y (List.mem_cons_of_mem _ member), found⟩

theorem matchany_iff : matchany here text = true ↔ ∃ before t, text = before ++ t ∧ here t = true := by
  induction text with
  | nil =>
    constructor
    · intro found
      exact ⟨[], [], rfl, found⟩
    · rintro ⟨before, t, split, found⟩
      rw [(List.append_eq_nil_iff.mp split.symm).2] at found
      exact found
  | cons x text ih =>
    rw [matchany, Bool.or_eq_true, ih]
    constructor
    · rintro (found | ⟨before, t, rfl, found⟩)
      · exact ⟨[], x :: text, rfl, found⟩
      · exact ⟨x :: before, t, rfl, found⟩
    rintro ⟨before, t, split, found⟩
    cases before with
    | nil =>
      cases split
      exact .inl found
    | cons y before =>
      cases split
      exact .inr ⟨before, t, rfl, found⟩

theorem matchone_iff {is : List Item} {found : List Byte → Bool}
    (tail : ∀ t, found t = true ↔ ∃ u rest, t = u ++ rest ∧ Matches is u rest) :
    matchone c found text = true ↔ ∃ u rest, text = u ++ rest ∧ Matches (.one c :: is) u rest := by
  cases text with
  | nil =>
    refine iff_of_false Bool.false_ne_true ?_
    rintro ⟨u, rest, split, matched⟩
    cases matched with
    | one => cases split
  | cons x t =>
    rw [matchone, Bool.and_eq_true, Bool.or_eq_true, decide_eq_true_eq, decide_eq_true_eq, tail]
    constructor
    · rintro ⟨fits, u, rest, rfl, matched⟩
      exact ⟨x :: u, rest, rfl, .one fits matched⟩
    rintro ⟨u, rest, split, matched⟩
    cases matched with
    | one fits matched =>
      cases split
      exact ⟨fits, _, rest, rfl, matched⟩

theorem matchhere_iff (re text : List Byte) :
    matchhere re text = true ↔ ∃ u rest, text = u ++ rest ∧ Matches (items re) u rest := by
  induction re using items.induct generalizing text with
  | case1 => exact iff_of_true rfl ⟨[], text, rfl, .nil⟩
  | case2 =>
    rw [matchhere, if_pos rfl, items, if_pos rfl, List.isEmpty_iff]
    constructor
    · rintro rfl
      exact ⟨[], [], rfl, .stop .nil⟩
    · rintro ⟨u, rest, rfl, matched⟩
      cases matched
      rfl
  | case3 c plain =>
    rw [matchhere, if_neg plain, items, if_neg plain]
    exact matchone_iff fun t => iff_of_true rfl ⟨[], t, rfl, .nil⟩
  | case4 c _ ih =>
    rw [matchhere, if_pos rfl, items, if_pos rfl, matchstar_iff]
    constructor
    · rintro ⟨w, t, rfl, all, found⟩
      obtain ⟨u, rest, rfl, matched⟩ := (ih t).mp found
      exact ⟨w ++ u, rest, (List.append_assoc w u rest).symm, .star all matched⟩
    rintro ⟨u, rest, rfl, matched⟩
    cases matched with
    | @star c _ w u rest all matched =>
      exact ⟨w, u ++ rest, List.append_assoc w u rest, all, (ih _).mpr ⟨u, rest, rfl, matched⟩⟩
  | case5 c d _ plain ih =>
    rw [matchhere, if_neg plain, items, if_neg plain]
    exact matchone_iff ih

def unanchored (re : List Byte) : List Byte := if re.head? = some caret then re.tail else re

theorem matchText_iff (re text : List Byte) : matchText re text = true ↔ ∃ before u rest, text = before ++ u ++ rest ∧
    (re.head? = some caret → before = []) ∧ Matches (items (unanchored re)) u rest := by
  have search (re : List Byte) : matchany (matchhere re) text = true ↔
      ∃ before u rest, text = before ++ u ++ rest ∧ Matches (items re) u rest := by
    rw [matchany_iff]
    constructor
    · rintro ⟨before, t, rfl, found⟩
      obtain ⟨u, rest, rfl, matched⟩ := (matchhere_iff re t).mp found
      exact ⟨before, u, rest, (List.append_assoc before u rest).symm, matched⟩
    · rintro ⟨before, u, rest, rfl, matched⟩
      exact ⟨before, u ++ rest, List.append_assoc before u rest, (matchhere_iff re _).mpr ⟨u, rest, rfl, matched⟩⟩
  cases re with
  | nil =>
    rw [matchText, search]
    simp [unanchored]
  | cons c =>
    by_cases anchored : c = caret
    · rw [matchText, if_pos anchored, matchhere_iff, unanchored,
        List.head?_cons, if_pos (congrArg some anchored), List.tail_cons]
      constructor
      · rintro ⟨u, rest, rfl, matched⟩
        exact ⟨[], u, rest, rfl, fun _ => rfl, matched⟩
      · rintro ⟨_, u, rest, rfl, first, matched⟩
        rw [first (congrArg some anchored)]
        exact ⟨u, rest, rfl, matched⟩
    · rw [matchText, if_neg anchored, search]
      simp [unanchored, anchored]

end Matcher

section Lines

def lines (input : List Byte) : List (List Byte) := (input.splitOn newline).dropLast

def expected (re input : List Byte) : List Byte := ((lines input).filter (matchText re ·)).flatMap (· ++ [newline])

theorem findLine_some (found : findLine p = some (line, rest)) : p = line ++ newline :: rest ∧ newline ∉ line := by
  induction p generalizing line with
  | nil => cases found
  | cons b p ih =>
    rw [findLine] at found
    split_ifs at found with nul here
    · cases found
      exact ⟨congrArg (· :: _) here, List.not_mem_nil⟩
    obtain ⟨r, inside, same⟩ := Option.map_eq_some_iff.mp found
    cases same
    obtain ⟨split, none⟩ := ih inside
    exact ⟨congrArg (b :: ·) split, List.not_mem_cons_of_ne_of_not_mem (Ne.symm here) none⟩

theorem findLine_none (nulFree : 0 ∉ p) : findLine p = none ↔ newline ∉ p := by
  induction p with
  | nil => exact iff_of_true rfl List.not_mem_nil
  | cons b p ih =>
    rw [List.mem_cons, not_or] at nulFree
    rw [findLine, if_neg (Ne.symm nulFree.1), List.mem_cons]
    by_cases here : b = newline
    · simp [here]
    · rw [if_neg here, Option.map_eq_none_iff, ih nulFree.2]
      simp [Ne.symm here]

theorem expected_cons (none : newline ∉ line) : expected re (line ++ newline :: rest) =
    (if matchText re line then line ++ [newline] else []) ++ expected re rest := by
  have split : lines (line ++ newline :: rest) = line :: lines rest := by
    unfold lines
    rw [List.splitOn, List.splitOnP_append_cons_of_forall_mem (fun x member => ?_) newline (by simp),
      List.dropLast_cons_of_ne_nil (List.splitOnP_ne_nil _ _)]
    · rfl
    · exact beq_false_of_ne fun same => none (same ▸ member)
  unfold expected
  rw [split, List.filter_cons]
  split_ifs <;> rfl

theorem expected_none (none : newline ∉ p) : expected re p = [] := by
  unfold expected lines
  rw [List.splitOn, List.splitOnP_eq_singleton fun x member => ?_]
  · rfl
  · exact beq_false_of_ne fun same => none (same ▸ member)

theorem scan_spec (nulFree : 0 ∉ p) (enough : p.length ≤ n) :
    (0 ∉ (scan re n p).2 ∧ newline ∉ (scan re n p).2) ∧
      (∀ q, expected re (p ++ q) = (scan re n p).1 ++ expected re ((scan re n p).2 ++ q)) ∧
      (scan re n p).2.length ≤ p.length ∧ (newline ∈ p → (scan re n p).2.length < p.length) := by
  induction n generalizing p with
  | zero =>
    obtain rfl := List.length_eq_zero_iff.mp (Nat.le_zero.mp enough)
    exact ⟨⟨nulFree, List.not_mem_nil⟩, fun _ => rfl, Nat.le_refl _, fun member => absurd member List.not_mem_nil⟩
  | succ n ih =>
    rw [scan]
    cases found : findLine p with
    | none =>
      have none := (findLine_none nulFree).mp found
      exact ⟨⟨nulFree, none⟩, fun _ => rfl, Nat.le_refl _, fun member => absurd member none⟩
    | some r =>
      obtain ⟨line, rest⟩ := r
      obtain ⟨rfl, none⟩ := findLine_some found
      have shorter : rest.length < (line ++ newline :: rest).length := by
        rw [List.length_append, List.length_cons]
        omega
      obtain ⟨left, split, less, -⟩ :=
        @ih rest (fun nul => nulFree (List.mem_append_right _ (List.mem_cons_of_mem _ nul))) (by omega)
      refine ⟨left, fun q => ?_, less.trans (Nat.le_of_lt shorter), fun _ => less.trans_lt shorter⟩
      rw [List.append_assoc, List.cons_append, expected_cons none, split, List.append_assoc]

theorem scan_none (nulFree : 0 ∉ p) (none : newline ∉ p) : scan re n p = ([], p) := by
  cases n with
  | zero => rfl
  | succ n => rw [scan, (findLine_none nulFree).mpr none]

theorem scan_left (re : List Byte) : (scan re n p).2 = (scan [] n p).2 := by
  induction n generalizing p with
  | zero => rfl
  | succ n ih =>
    rw [scan, scan]
    cases findLine p with
    | none => rfl
    | some r => exact ih

/-- No newline follows a piece without one. -/
def Whole (pieces : List (List Byte)) : Prop := pieces.Pairwise fun piece later => newline ∈ later → newline ∈ piece

instance decidableWhole (pieces : List (List Byte)) : Decidable (Whole pieces) :=
  inferInstanceAs (Decidable (pieces.Pairwise _))

theorem whole_cons {piece : List Byte} : Whole (piece :: pieces) ↔
    (newline ∈ pieces.flatten → newline ∈ piece) ∧ Whole pieces := by
  unfold Whole
  rw [List.pairwise_cons, List.mem_flatten]
  refine and_congr_left' ⟨?_, fun follows later member inside => follows ⟨later, member, inside⟩⟩
  rintro follows ⟨later, member, inside⟩
  exact follows later member inside

theorem whole_silent (none : newline ∉ pieces.flatten) : Whole pieces := by
  refine List.pairwise_of_forall_mem_list fun _ _ later member inside => ?_
  exact absurd (List.mem_flatten.mpr ⟨later, member, inside⟩) none

/-- What has been carried over has no newline. -/
theorem newline_mem_append (none : newline ∉ buf) : newline ∈ buf ++ p ↔ newline ∈ p := by
  rw [List.mem_append, or_iff_right none]

theorem grep_cons {piece : List Byte} (filled : piece ≠ []) (nulFree : 0 ∉ buf ++ piece) (none : newline ∉ buf) :
    grep re (piece :: pieces) buf =
      if newline ∈ piece then (scan re (buf ++ piece).length (buf ++ piece)).1 ++
        grep re pieces (scan [] (buf ++ piece).length (buf ++ piece)).2
      else grep re pieces [] := by
  rw [grep, if_neg filled]
  split_ifs with found
  · obtain ⟨-, -, -, less⟩ := @scan_spec re (buf ++ piece) _ nulFree (Nat.le_refl _)
    rw [← scan_left re]
    dsimp only
    rw [if_neg (Nat.ne_of_lt (less ((newline_mem_append none).mpr found)))]
  · rw [scan_none nulFree (mt (newline_mem_append none).mp found)]
    dsimp only
    rw [if_pos rfl, List.nil_append]

theorem grep_silent (filled : ∀ piece ∈ pieces, piece ≠ [])
    (nulFree : 0 ∉ pieces.flatten) (none : newline ∉ pieces.flatten) :
    grep re pieces [] = [] := by
  induction pieces with
  | nil => rfl
  | cons piece _ ih =>
    rw [List.flatten_cons, List.mem_append, not_or] at none nulFree
    rw [grep_cons (filled piece List.mem_cons_self) nulFree.1 List.not_mem_nil, if_neg none.1]
    exact ih (fun piece member => filled piece (List.mem_cons_of_mem _ member)) nulFree.2 none.2

theorem grep_of_whole (filled : ∀ piece ∈ pieces, piece ≠ []) (nulFree : 0 ∉ buf ++ pieces.flatten)
    (none : newline ∉ buf) (ok : Whole pieces) : grep re pieces buf = expected re (buf ++ pieces.flatten) := by
  induction pieces generalizing buf with
  | nil =>
    rw [List.flatten_nil, List.append_nil, expected_none none]
    rfl
  | cons piece _ ih =>
    rw [List.flatten_cons, ← List.append_assoc, List.mem_append, not_or] at nulFree
    have later := fun piece member => filled piece (List.mem_cons_of_mem _ member)
    obtain ⟨follows, ok⟩ := whole_cons.mp ok
    rw [grep_cons (filled piece List.mem_cons_self) nulFree.1 none, List.flatten_cons, ← List.append_assoc]
    split_ifs with found
    · obtain ⟨⟨nul, left⟩, split, -⟩ := @scan_spec re (buf ++ piece) _ nulFree.1 (Nat.le_refl _)
      rw [scan_left re] at nul left split
      rw [split, ih later (fun member => (List.mem_append.mp member).elim nul nulFree.2) left ok]
    · have silent := mt follows found
      rw [← newline_mem_append none] at found
      rw [grep_silent later nulFree.2 silent, expected_none fun member => (List.mem_append.mp member).elim found silent]

theorem matchText_nil (text : List Byte) : matchText [] text = true := by
  cases text <;> rfl

theorem length_expected_append (none : newline ∉ line) (more : newline ∈ rest) :
    (expected [] (line ++ rest)).length = line.length + (expected [] rest).length := by
  obtain ⟨front, _, rfl, first⟩ := List.eq_append_cons_of_mem more
  have both : newline ∉ line ++ front := fun member => (List.mem_append.mp member).elim none first
  rw [← List.append_assoc, expected_cons both, expected_cons first, if_pos (matchText_nil _), if_pos (matchText_nil _)]
  simp only [List.length_append]
  omega

theorem length_grep_le (filled : ∀ piece ∈ pieces, piece ≠ []) (nulFree : 0 ∉ buf ++ pieces.flatten)
    (none : newline ∉ buf) : (grep [] pieces buf).length ≤ (expected [] (buf ++ pieces.flatten)).length := by
  induction pieces generalizing buf with
  | nil => exact Nat.zero_le _
  | cons piece pieces ih =>
    rw [List.flatten_cons, ← List.append_assoc, List.mem_append, not_or] at nulFree
    have later := fun piece member => filled piece (List.mem_cons_of_mem _ member)
    rw [grep_cons (filled piece List.mem_cons_self) nulFree.1 none, List.flatten_cons, ← List.append_assoc]
    split_ifs with found
    · obtain ⟨⟨nul, left⟩, split, -⟩ := @scan_spec [] (buf ++ piece) _ nulFree.1 (Nat.le_refl _)
      have less := ih later (fun member => (List.mem_append.mp member).elim nul nulFree.2) left
      rw [split]
      generalize scan [] (buf ++ piece).length (buf ++ piece) = r at less ⊢
      rw [List.length_append, List.length_append]
      exact Nat.add_le_add_left less _
    have less := @ih [] later nulFree.2 List.not_mem_nil
    rw [List.nil_append] at less
    rw [← newline_mem_append none] at found
    by_cases more : newline ∈ pieces.flatten
    · rw [length_expected_append found more]
      omega
    · rw [expected_none more] at less
      exact less.trans (Nat.zero_le _)

theorem whole_of_grep (filled : ∀ piece ∈ pieces, piece ≠ []) (nulFree : 0 ∉ buf ++ pieces.flatten)
    (none : newline ∉ buf) (same : grep [] pieces buf = expected [] (buf ++ pieces.flatten)) : Whole pieces := by
  induction pieces generalizing buf with
  | nil => exact List.Pairwise.nil
  | cons piece pieces ih =>
    rw [List.flatten_cons, ← List.append_assoc, List.mem_append, not_or] at nulFree
    have later := fun piece member => filled piece (List.mem_cons_of_mem _ member)
    have some := filled piece List.mem_cons_self
    rw [grep_cons some nulFree.1 none, List.flatten_cons, ← List.append_assoc] at same
    rw [whole_cons]
    split_ifs at same with found
    · obtain ⟨⟨nul, left⟩, split, -⟩ := @scan_spec [] (buf ++ piece) _ nulFree.1 (Nat.le_refl _)
      rw [split] at same
      refine ⟨fun _ => found, ih later (fun member => (List.mem_append.mp member).elim nul nulFree.2) left ?_⟩
      exact List.append_cancel_left same
    -- What has been dropped is missing from what is written.
    suffices silent : newline ∉ pieces.flatten from ⟨fun more => absurd more silent, whole_silent silent⟩
    intro more
    have less := @length_grep_le [] pieces later nulFree.2 List.not_mem_nil
    have positive := List.length_pos_of_ne_nil some
    rw [← newline_mem_append none] at found
    rw [same, List.nil_append, length_expected_append found more, List.length_append] at less
    omega

theorem grep_whole (pieces : List (List Byte)) (filled : ∀ piece ∈ pieces, piece ≠ []) (nulFree : 0 ∉ pieces.flatten) :
    (∀ re, grep re pieces [] = expected re pieces.flatten) ↔ Whole pieces := by
  constructor
  · intro same
    exact whole_of_grep filled nulFree List.not_mem_nil (same [])
  · intro ok _
    exact grep_of_whole filled nulFree List.not_mem_nil ok

theorem grep_whole_two : grep [98] [[97, 98, 10, 99], [98, 10]] [] = expected [98] [97, 98, 10, 99, 98, 10] :=
  (grep_whole [[97, 98, 10, 99], [98, 10]] (by decide) (by decide)).mpr (by decide) [98]

theorem grep_split : grep [97, 98] [[97], [98, 10]] [] = [] ∧ expected [97, 98] [97, 98, 10] = [97, 98, 10] := by
  decide

end Lines

end Xv6.Grep
