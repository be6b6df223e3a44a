import RaisinDB.Clock.HybridClock
import RaisinDB.Foundation.GraphSearch

/-!
# The revision graph

Every commit has a parent, and a merge commit a second one.  The metadata of a
revision may be missing, and then nothing follows it.
-/

namespace RaisinDB.Branches

open RaisinDB.Clock RaisinDB.Foundation RaisinDB.Replication List

/-! ## Metadata -/

inductive ChangeOperation where
  | added
  | modified
  | deleted
  | reordered
  deriving DecidableEq

structure NodeChangeInfo where
  nodeId : String
  workspace : String
  operation : ChangeOperation
  translationLocale : Option String
  deriving DecidableEq

structure RevisionMeta where
  parent : Option HLC
  mergeParent : Option HLC
  changedNodes : List NodeChangeInfo
  deriving DecidableEq

def RevisionMeta.links (record : RevisionMeta) : List HLC :=
  record.parent.toList ++ record.mergeParent.toList

/-- The metadata of every stored revision. -/
structure RevisionGraph where
  metas : AList fun _ : HLC => RevisionMeta

namespace RevisionGraph

variable (graph : RevisionGraph)

def empty : RevisionGraph := ⟨∅⟩

def getRevisionMeta (revision : HLC) : Option RevisionMeta := graph.metas.lookup revision

def storeRevisionMeta (revision : HLC) (record : RevisionMeta) : RevisionGraph :=
  ⟨graph.metas.insert revision record⟩

/-- The parent first, then the merge parent. -/
def links (revision : HLC) : List HLC :=
  match graph.getRevisionMeta revision with
  | some record => record.links
  | none => []

/-- All links of the graph, which bound every walk. -/
def allLinks : List HLC := graph.metas.entries.flatMap fun entry => entry.2.links

/-- Everything that can be reached from a head, in the order of the search. -/
def ancestry (head : HLC) : List HLC :=
  searchFrom graph.links (graph.allLinks.length + 1) [] [head]

/-- The same walk with the marks set on the way out of the queue. -/
def walkRevisionHistory (head : HLC) : List HLC :=
  walkFrom graph.links (1 + 2 * (graph.allLinks.length + 1)) [] [head]

/-- Every link leads to an older revision. -/
def Growing : Prop := ∀ revision, ∀ link ∈ graph.links revision, link < revision

/-! ## Reachable revisions -/

def Reaches (head revision : HLC) : Prop := Foundation.Reaches graph.links head revision

variable {graph}

theorem mem_allLinks {revision link : HLC} (linked : link ∈ graph.links revision) :
    link ∈ graph.allLinks := by
  rw [links] at linked
  cases stored : graph.getRevisionMeta revision with
  | none =>
      rw [stored] at linked
      cases linked
  | some record =>
      rw [stored] at linked
      exact mem_flatMap.mpr ⟨⟨revision, record⟩, AList.mem_lookup_iff.mp stored, linked⟩

/-- It is enough to look at the stored metadata. -/
theorem growing_of_metas
    (older : ∀ entry ∈ graph.metas.entries, ∀ link ∈ entry.2.links, link < entry.1) :
    graph.Growing := by
  intro revision link linked
  rw [links] at linked
  cases stored : graph.getRevisionMeta revision with
  | none =>
      rw [stored] at linked
      cases linked
  | some record =>
      rw [stored] at linked
      exact older ⟨revision, record⟩ (AList.mem_lookup_iff.mp stored) link linked

theorem length_links_le (revision : HLC) : (graph.links revision).length ≤ 2 := by
  rw [links]
  cases graph.getRevisionMeta revision with
  | none => exact Nat.zero_le 2
  | some record =>
      have parent : record.parent.toList.length ≤ 1 := Option.length_toList_le
      have mergeParent : record.mergeParent.toList.length ≤ 1 := Option.length_toList_le
      change (record.parent.toList ++ record.mergeParent.toList).length ≤ 2
      rw [length_append]
      omega

@[simp] theorem mem_ancestry {head revision : HLC} :
    revision ∈ graph.ancestry head ↔ graph.Reaches head revision := by
  have inside : ∀ node link, link ∈ graph.links node → link ∈ head :: graph.allLinks :=
    fun node link linked => mem_cons_of_mem _ (mem_allLinks linked)
  exact (searchFrom_explores inside Exploring.init (nodup_singleton head) mem_cons_self
    (le_refl _)).mem_iff

theorem nodup_ancestry (head : HLC) : (graph.ancestry head).Nodup :=
  searchFrom_nodup (nodup_singleton head)

@[simp] theorem mem_walkRevisionHistory {head revision : HLC} :
    revision ∈ graph.walkRevisionHistory head ↔ graph.Reaches head revision := by
  have inside : ∀ node link, link ∈ graph.links node → link ∈ head :: graph.allLinks :=
    fun node link linked => mem_cons_of_mem _ (mem_allLinks linked)
  exact (walkFrom_explores inside length_links_le Exploring.init nodup_nil mem_cons_self
    (le_refl _)).mem_iff

theorem Reaches.refl (head : HLC) : graph.Reaches head head := Relation.ReflTransGen.refl

theorem Reaches.trans {first second third : HLC} (one : graph.Reaches first second)
    (two : graph.Reaches second third) : graph.Reaches first third :=
  Relation.ReflTransGen.trans one two

theorem Reaches.link {revision link : HLC} (linked : link ∈ graph.links revision) :
    graph.Reaches revision link :=
  Relation.ReflTransGen.single linked

theorem Growing.le (growing : graph.Growing) {head revision : HLC}
    (reach : graph.Reaches head revision) : revision ≤ head := by
  induction reach with
  | refl => exact le_refl head
  | tail _ linked ih => exact (growing _ _ linked).le.trans ih

end RevisionGraph

end RaisinDB.Branches
