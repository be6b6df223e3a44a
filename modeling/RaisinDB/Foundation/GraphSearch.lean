import Mathlib

/-!
# Searching a graph from one node

Two searches with a queue: one marks a node when it joins the queue, the other
when it leaves it.  Within a finite set of nodes both find what can be reached.
-/

namespace RaisinDB.Foundation

open List

section Search

variable {ν : Type} (next : ν → List ν)

/-- What a search can reach. -/
def Reaches : ν → ν → Prop := Relation.ReflTransGen fun node link => link ∈ next node

/-! ## What a loop keeps -/

/-- The visited nodes and the queue hold the start, can be reached, and lead only to one
another. -/
structure Exploring (start : ν) (visited queue : List ν) : Prop where
  started : start ∈ visited ++ queue
  reached : ∀ node ∈ visited ++ queue, Reaches next start node
  closed : ∀ node ∈ visited, ∀ link ∈ next node, link ∈ visited ++ queue

variable {next} {start : ν}

theorem Exploring.init : Exploring next start [] [start] where
  started := mem_singleton_self start
  reached node hmem := by
    rw [nil_append, mem_singleton] at hmem
    exact hmem ▸ Relation.ReflTransGen.refl
  closed node hmem := by cases hmem

/-- The search is done when the queue is empty. -/
theorem Exploring.mem_iff {visited : List ν} (exploring : Exploring next start visited [])
    {node : ν} : node ∈ visited ↔ Reaches next start node := by
  have all : visited ++ [] = visited := append_nil visited
  constructor
  · intro hmem
    exact exploring.reached node (all.symm ▸ hmem)
  · intro reach
    induction reach with
    | refl => exact all ▸ exploring.started
    | tail _ link ih => exact all ▸ exploring.closed _ ih _ link

/-- One node leaves the queue, and its links are in what follows. -/
theorem Exploring.pop {visited queue queue' : List ν} {node : ν}
    (exploring : Exploring next start visited (node :: queue))
    (kept : ∀ other ∈ queue, other ∈ queue')
    (linked : ∀ link ∈ next node, link ∈ visited ++ node :: queue')
    (known : ∀ other ∈ queue', other ∈ queue ∨ other ∈ next node) :
    Exploring next start (visited ++ [node]) queue' := by
  have here : node ∈ visited ++ node :: queue := mem_append_right _ mem_cons_self
  have carry : ∀ other ∈ visited ++ node :: queue, other ∈ visited ++ node :: queue' := by
    intro other hother
    rcases mem_append.mp hother with old | later
    · exact mem_append_left _ old
    · refine mem_append_right _ ?_
      rcases mem_cons.mp later with rfl | inside
      · exact mem_cons_self
      · exact mem_cons_of_mem _ (kept other inside)
  have split : visited ++ [node] ++ queue' = visited ++ node :: queue' := by
    rw [append_assoc, singleton_append]
  refine ⟨?_, fun other hother => ?_, fun other hother link hlink => ?_⟩
  · exact split ▸ carry start exploring.started
  · rw [split] at hother
    rcases mem_append.mp hother with old | later
    · exact exploring.reached other (mem_append_left _ old)
    · rcases mem_cons.mp later with rfl | inside
      · exact exploring.reached other here
      · rcases known other inside with before | link
        · exact exploring.reached other (mem_append_right _ (mem_cons_of_mem _ before))
        · exact (exploring.reached node here).tail link
  · rw [split]
    rcases mem_append.mp hother with old | new
    · exact carry link (exploring.closed other old link hlink)
    · rw [mem_singleton.mp new] at hlink
      exact linked link hlink

theorem Exploring.skip {visited queue : List ν} {node : ν}
    (exploring : Exploring next start visited (node :: queue)) (seen : node ∈ visited) :
    Exploring next start visited queue := by
  have drop : ∀ other ∈ visited ++ node :: queue, other ∈ visited ++ queue := by
    intro other hother
    rcases mem_append.mp hother with old | later
    · exact mem_append_left _ old
    · rcases mem_cons.mp later with rfl | inside
      · exact mem_append_left _ seen
      · exact mem_append_right _ inside
  refine ⟨drop start exploring.started, fun other hother => exploring.reached other ?_,
    fun other hother link hlink => drop link (exploring.closed other hother link hlink)⟩
  rcases mem_append.mp hother with old | inside
  · exact mem_append_left _ old
  · exact mem_append_right _ (mem_cons_of_mem _ inside)

/-- A search stays within the nodes that have links to them. -/
theorem Exploring.length_le {visited queue nodes : List ν}
    (exploring : Exploring next start visited queue)
    (inside : ∀ node link, link ∈ next node → link ∈ nodes) (known : start ∈ nodes)
    {found : List ν} (distinct : found.Nodup) (part : ∀ node ∈ found, node ∈ visited ++ queue) :
    found.length ≤ nodes.length := by
  refine (subperm_of_subset distinct fun node hmem => ?_).length_le
  rcases (exploring.reached node (part node hmem)).cases_tail with rfl | ⟨other, _, link⟩
  · exact known
  · exact inside other node link

end Search

/-! ## The two loops -/

section Loops

variable {ν : Type} [DecidableEq ν] (next : ν → List ν)

/-- The links that join the queue, in order. -/
def unseen (seen : List ν) : List ν → List ν
  | [] => []
  | link :: rest =>
      if link ∈ seen then unseen seen rest else link :: unseen (link :: seen) rest

/-- Every node is marked when it joins the queue. -/
def searchFrom : Nat → List ν → List ν → List ν
  | 0, visited, _ => visited
  | _ + 1, visited, [] => visited
  | fuel + 1, visited, node :: queue =>
      searchFrom fuel (visited ++ [node])
        (queue ++ unseen (visited ++ node :: queue) (next node))

/-- Nodes join the queue unseen, and are marked when they leave it. -/
def walkFrom : Nat → List ν → List ν → List ν
  | 0, visited, _ => visited
  | _ + 1, visited, [] => visited
  | fuel + 1, visited, node :: queue =>
      if node ∈ visited then walkFrom fuel visited queue
      else walkFrom fuel (visited ++ [node]) (queue ++ next node)

variable {next} {start : ν}

/-! ## Marking on the way in -/

theorem mem_unseen {links seen : List ν} {link : ν} :
    link ∈ unseen seen links ↔ link ∈ links ∧ link ∉ seen := by
  induction links generalizing seen with
  | nil => simp [unseen]
  | cons first rest ih =>
    rw [unseen]
    by_cases old : first ∈ seen
    · rw [if_pos old, ih, mem_cons]
      constructor
      · exact fun ⟨later, new⟩ => ⟨.inr later, new⟩
      · rintro ⟨rfl | later, new⟩
        · exact absurd old new
        · exact ⟨later, new⟩
    · rw [if_neg old, mem_cons, ih, mem_cons, mem_cons]
      constructor
      · rintro (rfl | ⟨later, new⟩)
        · exact ⟨.inl rfl, old⟩
        · exact ⟨.inr later, fun seen => new (.inr seen)⟩
      · rintro ⟨rfl | later, new⟩
        · exact .inl rfl
        · by_cases same : link = first
          · exact .inl same
          · refine .inr ⟨later, fun either => ?_⟩
            rcases either with here | seen
            · exact same here
            · exact new seen

theorem nodup_unseen (links seen : List ν) : (unseen seen links).Nodup := by
  induction links generalizing seen with
  | nil => exact nodup_nil
  | cons first rest ih =>
    rw [unseen]
    by_cases old : first ∈ seen
    · rw [if_pos old]
      exact ih seen
    · rw [if_neg old, nodup_cons]
      exact ⟨fun again => (mem_unseen.mp again).2 mem_cons_self, ih _⟩

theorem nodup_pop {visited queue : List ν} {node : ν}
    (distinct : (visited ++ node :: queue).Nodup) :
    (visited ++ [node] ++
      (queue ++ unseen (visited ++ node :: queue) (next node))).Nodup := by
  have split : visited ++ [node] ++ (queue ++ unseen (visited ++ node :: queue) (next node)) =
      (visited ++ node :: queue) ++ unseen (visited ++ node :: queue) (next node) := by
    simp only [append_assoc, nil_append, cons_append]
  rw [split]
  refine distinct.append (nodup_unseen _ _) fun link old new => ?_
  exact (mem_unseen.mp new).2 old

/-- The fuel bounds the nodes that are still to come. -/
theorem searchFrom_explores {nodes : List ν}
    (inside : ∀ node link, link ∈ next node → link ∈ nodes) {fuel : Nat}
    {visited queue : List ν} (exploring : Exploring next start visited queue)
    (distinct : (visited ++ queue).Nodup) (known : start ∈ nodes)
    (enough : nodes.length ≤ fuel + visited.length) :
    Exploring next start (searchFrom next fuel visited queue) [] := by
  induction fuel generalizing visited queue with
  | zero =>
    have within := exploring.length_le inside known distinct fun _ hmem => hmem
    have empty : queue = [] := by
      rw [length_append] at within
      exact length_eq_zero_iff.mp (by omega)
    subst empty
    exact exploring
  | succ fuel ih =>
    cases queue with
    | nil => exact exploring
    | cons node queue =>
      have popped := exploring.pop
        (fun other hother => mem_append_left (unseen (visited ++ node :: queue) (next node)) hother)
        (fun link hlink => by
          by_cases seen : link ∈ visited ++ node :: queue
          · rw [← cons_append, ← append_assoc]
            exact mem_append_left _ seen
          · refine mem_append_right _ (mem_cons_of_mem _ (mem_append_right _ ?_))
            exact mem_unseen.mpr ⟨hlink, seen⟩)
        (fun other hother => (mem_append.mp hother).imp id fun new => (mem_unseen.mp new).1)
      refine ih popped (nodup_pop distinct) ?_
      rw [length_append, length_singleton]
      omega

theorem searchFrom_nodup {fuel : Nat} {visited queue : List ν}
    (distinct : (visited ++ queue).Nodup) : (searchFrom next fuel visited queue).Nodup := by
  induction fuel generalizing visited queue with
  | zero => exact distinct.of_append_left
  | succ fuel ih =>
    cases queue with
    | nil => exact distinct.of_append_left
    | cons node queue => exact ih (nodup_pop distinct)

/-! ## Marking on the way out -/

theorem walkFrom_explores {nodes : List ν} {width : Nat}
    (inside : ∀ node link, link ∈ next node → link ∈ nodes)
    (narrow : ∀ node, (next node).length ≤ width) {fuel : Nat} {visited queue : List ν}
    (exploring : Exploring next start visited queue) (distinct : visited.Nodup)
    (known : start ∈ nodes)
    (enough : queue.length + width * (nodes.length - visited.length) ≤ fuel) :
    Exploring next start (walkFrom next fuel visited queue) [] := by
  induction fuel generalizing visited queue with
  | zero =>
    obtain rfl : queue = [] := length_eq_zero_iff.mp (by omega)
    exact exploring
  | succ fuel ih =>
    cases queue with
    | nil => exact exploring
    | cons node queue =>
      rw [walkFrom]
      rw [length_cons] at enough
      by_cases seen : node ∈ visited
      · rw [if_pos seen]
        exact ih (exploring.skip seen) distinct (by omega)
      · rw [if_neg seen]
        have distinct' : (visited ++ [node]).Nodup :=
          distinct.append (nodup_singleton node) (disjoint_singleton.mpr seen)
        have popped := exploring.pop
          (fun other hother => mem_append_left (next node) hother)
          (fun link hlink => mem_append_right _ (mem_cons_of_mem _ (mem_append_right _ hlink)))
          (fun other hother => mem_append.mp hother)
        have room := popped.length_le inside known distinct' fun _ => mem_append_left _
        refine ih popped distinct' ?_
        rw [length_append, length_singleton] at room
        have links := narrow node
        have shrink : width * (nodes.length - visited.length) =
            width * (nodes.length - (visited.length + 1)) + width := by
          rw [← Nat.mul_succ]
          congr 1
          omega
        rw [length_append, length_append, length_singleton]
        omega

end Loops

end RaisinDB.Foundation
