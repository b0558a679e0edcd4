import SequenceDiagram.Proofs.Soundness

set_option autoImplicit false

namespace SequenceDiagram

namespace Grove

def rowSlots : Nat → Grove → List Nat
  | _, .nil => []
  | slot, .tree seed body next =>
    sectionSlots slot seed body ++ rowSlots (slot + 1 + body.size) next
  | slot, .mark _ next => rowSlots slot next

def nestedSlots : Nat → Grove → List Nat
  | _, .nil => []
  | slot, .tree seed body next =>
    (match seed.element with
      | .group _ => [slot]
      | _ => []) ++ nestedSlots (slot + 1 + body.size) next
  | slot, .mark _ next => nestedSlots slot next

def declaredSlots : Nat → Grove → List Nat
  | _, .nil => []
  | slot, .tree seed body next =>
    (match seed.element with
      | .participant _ => [slot]
      | _ => []) ++ declaredSlots (slot + 1 + body.size) next
  | slot, .mark _ next => declaredSlots slot next

def childSlots (element : Element) (slot : Nat) (body : Grove) : List Nat :=
  match element with
  | .fragment _ => rowSlots slot body
  | .group _ => nestedSlots slot body
  | _ => []

def holdings : Nat → Grove → List (Nat × Nat)
  | _, .nil => []
  | slot, .tree seed body next =>
    (childSlots seed.element (slot + 1) body).map (fun child => (slot, child)) ++
      (holdings (slot + 1) body ++ holdings (slot + 1 + body.size) next)
  | slot, .mark _ next => holdings slot next

def listedSlots : Nat → Grove → List Nat
  | _, .nil => []
  | slot, .tree seed body next =>
    (match seed.element with
      | .group _ => declaredSlots (slot + 1) body
      | _ => []) ++ (listedSlots (slot + 1) body ++ listedSlots (slot + 1 + body.size) next)
  | slot, .mark _ next => listedSlots slot next

def held (slot : Nat) (grove : Grove) : List Nat :=
  (holdings slot grove).map Prod.snd

theorem held_tree (slot : Nat) (seed : Seed) (body next : Grove) :
    held slot (.tree seed body next) =
      childSlots seed.element (slot + 1) body ++
        (held (slot + 1) body ++ held (slot + 1 + body.size) next) := by
  simp [held, holdings, Function.comp_def]

def within (slot size j : Nat) : Nat :=
  if slot ≤ j ∧ j < slot + size then 1 else 0

theorem within_zero (slot j : Nat) : within slot 0 j = 0 := by
  rw [within, if_neg]
  omega

theorem within_tree (slot inside after j : Nat) :
    within slot (1 + inside + after) j =
      [slot].count j + within (slot + 1) inside j + within (slot + 1 + inside) after j := by
  simp only [within, List.count_cons, List.count_nil, beq_iff_eq]
  split <;> split <;> split <;> split <;> omega

theorem count_sectionSlots (slot j : Nat) (seed : Seed) (body : Grove) :
    (sectionSlots slot seed body).count j =
      [slot].count j +
        (match seed.element with
          | .group _ => straySlots (slot + 1) body
          | _ => []).count j := by
  exact @List.count_append Nat _ j [slot] _

/-- Every slot of a proper row is accounted for once. In a group, its own strays are left to the
fragment around it. -/
theorem count_slots {place : Place} {grove : Grove} (h : grove.Proper place) (slot j : Nat) :
    (if place = .group then
        (nestedSlots slot grove).count j + (straySlots slot grove).count j +
          (declaredSlots slot grove).count j
      else (rowSlots slot grove).count j) +
      (held slot grove).count j + (listedSlots slot grove).count j =
        within slot grove.size j := by
  induction grove generalizing place slot with
  | nil =>
    simp only [nestedSlots, straySlots, declaredSlots, rowSlots, held, holdings, listedSlots,
      List.map_nil, List.count_nil, Forest.size, within_zero, ite_self]
  | tree seed body next ihb ihn =>
    obtain ⟨hseed, hnext⟩ := h
    have after := ihn hnext (slot + 1 + body.size)
    have empty : held (slot + 1) .nil = [] := rfl
    obtain ⟨element, lineStart, lineEnd⟩ := seed
    rw [Forest.size, within_tree, ← after]
    -- a group hands strays on to the fragment around it, a fragment keeps all that is in it
    by_cases around : place = .group
    · simp only [around, if_true, nestedSlots, straySlots, declaredSlots, held_tree, listedSlots,
        List.count_append]
      cases element with
      | fragment f => exact absurd around hseed.1
      | group g =>
        have inside := ihb hseed.2 (slot + 1)
        simp only [if_true] at inside
        simp only [childSlots, List.count_nil]
        omega
      | participant _ | error _ =>
        obtain rfl : body = .nil := hseed
        simp only [childSlots, empty, listedSlots, Forest.size, within_zero, List.count_nil]
        omega
      | _ => exact absurd around hseed.1
    · simp only [around, if_false, rowSlots, count_sectionSlots, held_tree, listedSlots,
        List.count_append]
      cases element with
      | fragment f =>
        have inside := ihb hseed.2.2 (slot + 1)
        simp only [if_false, reduceCtorEq] at inside
        simp only [childSlots, List.count_nil]
        omega
      | group g =>
        have inside := ihb hseed.2 (slot + 1)
        simp only [if_true] at inside
        simp only [childSlots]
        omega
      | participant _ | error _ =>
        obtain rfl : body = .nil := hseed
        simp only [childSlots, empty, listedSlots, Forest.size, within_zero, List.count_nil]
        omega
      | _ =>
        obtain rfl : body = .nil := hseed.2
        simp only [childSlots, empty, listedSlots, Forest.size, within_zero, List.count_nil]
        omega
  | mark clause next ih =>
    obtain ⟨inside, -, hnext⟩ := h
    simpa [inside, rowSlots, held, holdings, listedSlots, Forest.size] using ih hnext slot

theorem nodup_held {place : Place} {grove : Grove} (h : grove.Proper place) (slot : Nat) :
    (held slot grove).Nodup := by
  rw [List.nodup_iff_count]
  intro j
  have all := count_slots h slot j
  have bound : within slot grove.size j ≤ 1 := by
    unfold within
    split <;> omega
  omega

structure Ascends (low high : Nat) (slots : List Nat) : Prop where
  sorted : slots.Pairwise (· < ·)
  bounds : ∀ j ∈ slots, low ≤ j ∧ j < high

theorem ascends_nil (low high : Nat) : Ascends low high [] :=
  ⟨List.Pairwise.nil, by simp⟩

theorem ascends_singleton {low high slot : Nat} (le : low ≤ slot) (lt : slot < high) :
    Ascends low high [slot] :=
  ⟨List.pairwise_singleton _ _, by simp [le, lt]⟩

theorem Ascends.append {low middle middle' high : Nat} {a b : List Nat}
    (ha : Ascends low middle a) (hb : Ascends middle' high b) (first : low ≤ middle')
    (between : middle ≤ middle') (last : middle ≤ high) : Ascends low high (a ++ b) where
  sorted := by
    refine List.pairwise_append.2 ⟨ha.sorted, hb.sorted, fun i hi j hj => ?_⟩
    have before := ha.bounds i hi
    have behind := hb.bounds j hj
    omega
  bounds j hj := by
    rcases List.mem_append.1 hj with hj | hj
    · have before := ha.bounds j hj
      omega
    · have behind := hb.bounds j hj
      omega

theorem Ascends.mono {low low' high high' : Nat} {slots : List Nat} (h : Ascends low high slots)
    (lower : low' ≤ low) (upper : high ≤ high') : Ascends low' high' slots where
  sorted := h.sorted
  bounds j hj := by
    have inside := h.bounds j hj
    omega

theorem ascends_straySlots (slot : Nat) (grove : Grove) :
    Ascends slot (slot + grove.size) (straySlots slot grove) := by
  induction grove generalizing slot with
  | nil => exact ascends_nil _ _
  | tree seed body next ihb ihn =>
    obtain ⟨element, lineStart, lineEnd⟩ := seed
    have behind := ihn (slot + 1 + body.size)
    simp only [Forest.size, straySlots]
    cases element with
    | error fault =>
      have head : Ascends slot (slot + 1) [slot] := ascends_singleton (by omega) (by omega)
      exact (head.append behind (by omega) (by omega) (by omega)).mono (by omega) (by omega)
    | group g =>
      have inside := ihb (slot + 1)
      exact (inside.append behind (by omega) (by omega) (by omega)).mono (by omega) (by omega)
    | _ => exact behind.mono (by omega) (by omega)
  | mark clause next ih => exact ih slot

theorem ascends_sectionSlots (slot : Nat) (seed : Seed) (body : Grove) :
    Ascends slot (slot + 1 + body.size) (sectionSlots slot seed body) := by
  obtain ⟨element, lineStart, lineEnd⟩ := seed
  have head : Ascends slot (slot + 1) [slot] := ascends_singleton (by omega) (by omega)
  cases element with
  | group g =>
    have inside := ascends_straySlots (slot + 1) body
    exact head.append inside (by omega) (by omega) (by omega)
  | _ => exact head.mono (by omega) (by omega)

theorem ascends_rowSlots (slot : Nat) (grove : Grove) :
    Ascends slot (slot + grove.size) (rowSlots slot grove) := by
  induction grove generalizing slot with
  | nil => exact ascends_nil _ _
  | tree seed body next _ ih =>
    have head := ascends_sectionSlots slot seed body
    have behind := ih (slot + 1 + body.size)
    simp only [Forest.size, rowSlots]
    exact (head.append behind (by omega) (by omega) (by omega)).mono (by omega) (by omega)
  | mark clause next ih => exact ih slot

theorem ascends_nestedSlots (slot : Nat) (grove : Grove) :
    Ascends slot (slot + grove.size) (nestedSlots slot grove) := by
  induction grove generalizing slot with
  | nil => exact ascends_nil _ _
  | tree seed body next _ ih =>
    obtain ⟨element, lineStart, lineEnd⟩ := seed
    have behind := ih (slot + 1 + body.size)
    simp only [Forest.size, nestedSlots]
    cases element with
    | group g =>
      have head : Ascends slot (slot + 1) [slot] := ascends_singleton (by omega) (by omega)
      exact (head.append behind (by omega) (by omega) (by omega)).mono (by omega) (by omega)
    | _ => exact behind.mono (by omega) (by omega)
  | mark clause next ih => exact ih slot

theorem ascends_childSlots (element : Element) (slot : Nat) (body : Grove) :
    Ascends slot (slot + body.size) (childSlots element slot body) := by
  cases element with
  | fragment f => exact ascends_rowSlots slot body
  | group g => exact ascends_nestedSlots slot body
  | _ => exact ascends_nil _ _

end Grove

end SequenceDiagram
