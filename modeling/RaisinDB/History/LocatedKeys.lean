import RaisinDB.Foundation.OpenChunks
import RaisinDB.History.KeyLocator
import RaisinDB.Indexing.DeleteIndex

/-!
# Located keys

Whatever the table finds in a key stands between separators: a chunk, a revision and
what follows it.  All keys of a chunk lie together, and a group has at most one key
for each revision.
-/

namespace RaisinDB.History

open RaisinDB.Branches RaisinDB.Foundation RaisinDB.Indexing RaisinDB.Oplog List
open RaisinDB.Replication (HLC)

/-! ## Counting separators -/

theorem nextSeparator_spec {key : Key} {start pos : Nat}
    (found : nextSeparator key start = some pos) :
    key[pos]? = some sep ∧ (key.take pos).count sep = (key.take start).count sep := by
  rw [nextSeparator, Option.map_eq_some_iff] at found
  obtain ⟨offset, first, rfl⟩ := found
  obtain ⟨within, here, earlier⟩ := findIdx?_eq_some_iff_getElem.mp first
  rw [getElem_drop] at here
  refine ⟨?_, ?_⟩
  · rw [length_drop] at within
    rw [getElem?_eq_getElem (by omega)]
    exact congrArg some (beq_iff_eq.mp here)
  · rw [take_add, count_append]
    have none_between : ((key.drop start).take offset).count sep = 0 := by
      rw [count_eq_zero]
      intro mem
      obtain ⟨index, bound, isSep⟩ := mem_iff_getElem.mp mem
      rw [length_take] at bound
      rw [getElem_take] at isSep
      exact earlier index (by omega) (beq_iff_eq.mpr isSep)
    rw [none_between, Nat.add_zero]

/-- A separator is known by the number of separators before it. -/
theorem leadingSeparators_spec {key : Key} {count start : Nat} {seps : List Nat}
    (found : leadingSeparators key count start = some seps) {index pos : Nat}
    (here : seps[index]? = some pos) :
    key[pos]? = some sep ∧ (key.take pos).count sep = (key.take start).count sep + index := by
  induction count generalizing start seps index with
  | zero =>
    rw [leadingSeparators, Option.some.injEq] at found
    rw [← found] at here
    simp at here
  | succ count ih =>
    rw [leadingSeparators, Option.bind_eq_bind, Option.bind_eq_some_iff] at found
    obtain ⟨first, isFirst, found⟩ := found
    rw [Option.bind_eq_bind, Option.bind_eq_some_iff] at found
    obtain ⟨others, later, seps_eq⟩ := found
    obtain rfl := Option.some.inj seps_eq
    obtain ⟨separates, none_before⟩ := nextSeparator_spec isFirst
    cases index with
    | zero =>
      obtain rfl := Option.some.inj here
      exact ⟨separates, none_before⟩
    | succ index =>
      obtain ⟨last, counted⟩ := ih later (by simpa using here)
      refine ⟨last, counted.trans ?_⟩
      obtain ⟨within, isSep⟩ := List.getElem?_eq_some_iff.mp separates
      rw [take_add_one, getElem?_eq_getElem within, isSep, count_append, none_before]
      simp only [Option.toList_some, count_singleton_self]
      omega

/-- Equal beginnings have their separators at equal places. -/
theorem separator_unique {first second : Key} {bound pos pos' : Nat}
    (same : first.take bound = second.take bound) (within : pos < bound) (within' : pos' < bound)
    (here : first[pos]? = some sep) (here' : second[pos']? = some sep)
    (counts : (first.take pos).count sep = (second.take pos').count sep) : pos = pos' := by
  have no_later : ∀ {key key' : Key} {early late : Nat}, key.take bound = key'.take bound →
      late < bound → key[early]? = some sep → early < late →
      (key.take early).count sep < (key'.take late).count sep := by
    intro key key' early late same within separates before
    have shared : key.take (early + 1) = key'.take (early + 1) := by
      have := congrArg (take (early + 1)) same
      rwa [take_take, take_take, min_eq_left (by omega)] at this
    have grows : (key'.take (early + 1)).count sep ≤ (key'.take late).count sep :=
      (take_sublist_take_left (by omega)).count_le sep
    have one_more : (key.take (early + 1)).count sep = (key.take early).count sep + 1 := by
      rw [take_add_one, separates, count_append]
      simp
    rw [← shared, one_more] at grows
    omega
  rcases lt_trichotomy pos pos' with before | rfl | behind
  · exact absurd counts (no_later same within' here before).ne
  · rfl
  · exact absurd counts (no_later same.symm within here' behind).ne'

/-! ## What is found -/

/-- The key ends behind the revision, or goes on with a separator. -/
theorem beforeTrailing_spec {key before : Key} {count : Nat}
    (found : beforeTrailing (count + 1) key = some before) :
    before.length < key.length ∧ key[before.length]? = some sep := by
  have one : ∀ {key before : Key}, beforeLastSep key = some before →
      ∃ name, key = before ++ sep :: name := by
    intro key before found
    unfold beforeLastSep at found
    split at found
    · cases found
    · rename_i byte others dropped
      obtain rfl := Option.some.inj found
      have isSep : byte = sep := by
        have head := head?_dropWhile_not (fun byte : UInt8 => decide (byte ≠ sep)) key.reverse
        rw [dropped] at head
        simpa using head
      have split := takeWhile_append_dropWhile (p := fun byte => byte ≠ sep) (l := key.reverse)
      rw [dropped, isSep] at split
      refine ⟨(key.reverse.takeWhile fun byte => byte ≠ sep).reverse, ?_⟩
      have back := congrArg reverse split
      simpa using back.symm
  induction count generalizing key before with
  | zero =>
    rw [beforeTrailing, Option.bind_eq_some_iff] at found
    obtain ⟨last, isLast, same⟩ := found
    obtain rfl := Option.some.inj same
    obtain ⟨name, rfl⟩ := one isLast
    simp
  | succ count ih =>
    rw [beforeTrailing, Option.bind_eq_some_iff] at found
    obtain ⟨last, isLast, found⟩ := found
    obtain ⟨name, rfl⟩ := one isLast
    obtain ⟨shorter, here⟩ := ih found
    refine ⟨by rw [length_append]; omega, ?_⟩
    rwa [getElem?_append_left shorter]

/-- The layouts of a row all end at the revision, or all go on behind it. -/
theorem locators_uniform : ∀ target ∈ gcTargets,
    (∀ layout ∈ target.layouts, layout.locator = .tail) ∨
      ∀ layout ∈ target.layouts,
        layout.locator = .beforeTrailing 1 ∨ layout.locator = .beforeTrailing 4 := by
  decide

/-- Where the parts of a located key are. -/
structure Placed (branchScoped : Bool) (layouts : List TagLayout) (key : Key) (located : Located) :
    Prop where
  long : located.revStart + 16 ≤ key.length
  scope : located.scopeEnd < located.revStart
  separated : key[located.revStart - 1]? = some sep
  counted : key[located.scopeEnd]? = some sep ∧
    (key.take located.scopeEnd).count sep = if branchScoped then 2 else 1
  ends : ∃ layout ∈ layouts, boundary key layout.locator = some (located.revStart + 16)

theorem boundary_le {key : Key} {locator : Locator} {bound : Nat}
    (found : boundary key locator = some bound) : bound ≤ key.length := by
  cases locator with
  | tail => exact (Option.some.inj found).ge
  | beforeTrailing count =>
    rw [boundary, Option.map_eq_some_iff] at found
    obtain ⟨before, isBefore, rfl⟩ := found
    cases count with
    | zero => exact (Option.some.inj isBefore) ▸ le_refl _
    | succ count => exact (beforeTrailing_spec isBefore).1.le

theorem tryLayout_spec {branchScoped : Bool} {key : Key} {layout : TagLayout} {located : Located}
    (tried : tryLayout branchScoped key layout = .found located) :
    Placed branchScoped [layout] key located := by
  unfold tryLayout at tried
  split at tried
  · cases tried
  · rename_i seps leading
    dsimp only at tried
    generalize (if layout.tagIndex = 0 then 0 else seps.getD (layout.tagIndex - 1) 0 + 1) =
      tagStart at tried
    split at tried
    · cases tried
    · unfold placeRevision at tried
      split at tried
      · cases tried
      · rename_i bound ends
        split at tried
        · cases tried
        · rename_i long
          dsimp only at tried
          split at tried
          · cases tried
          · rename_i placed
            split at tried
            · cases tried
            · rename_i scopeEnd scope
              split at tried
              · cases tried
              · rename_i early
                obtain rfl := Tried.found.inj tried
                rw [not_or, not_not] at placed
                have within := boundary_le ends
                obtain ⟨separates, counts⟩ := leadingSeparators_spec leading scope
                have again : bound - 16 + 16 = bound := by omega
                refine ⟨by rwa [again], not_le.mp early, placed.2, ⟨separates, ?_⟩, layout,
                  mem_cons_self, by rw [again, ends]⟩
                rw [counts]
                cases branchScoped <;> rfl

theorem locateIn_spec {branchScoped : Bool} {key : Key} {layouts : List TagLayout}
    {located : Located} (found : locateIn branchScoped key layouts = some located) :
    Placed branchScoped layouts key located := by
  induction layouts with
  | nil => cases found
  | cons layout others ih =>
    rw [locateIn] at found
    split at found
    · have placed := ih found
      obtain ⟨other, mem, ends⟩ := placed.ends
      exact { placed with ends := ⟨other, mem_cons_of_mem _ mem, ends⟩ }
    · cases found
    · rename_i tried
      obtain rfl := Option.some.inj found
      have placed := tryLayout_spec tried
      obtain ⟨other, mem, ends⟩ := placed.ends
      obtain rfl := mem_singleton.mp mem
      exact { placed with ends := ⟨other, mem_cons_self, ends⟩ }

/-! ## Chunks -/

/-- `key.starts_with(prefix) && key[prefix.len()] == 0` -/
def insideChunk (base key : Key) : Bool :=
  decide (base.length < key.length) && base.isPrefixOf key && key[base.length]? == some sep

theorem insideChunk_iff {base key : Key} : insideChunk base key = true ↔ base ++ [sep] <+: key := by
  rw [insideChunk, Bool.and_eq_true, Bool.and_eq_true, decide_eq_true_eq, beq_iff_eq,
     isPrefixOf_iff_prefix]
  constructor
  · rintro ⟨⟨_, others, rfl⟩, here⟩
    rw [getElem?_append_right (le_refl _), Nat.sub_self] at here
    cases others with
    | nil => cases here
    | cons byte others =>
      obtain rfl := Option.some.inj here
      exact ⟨others, by simp⟩
  · rintro ⟨others, rfl⟩
    refine ⟨⟨?_, ?_⟩, ?_⟩
    · simp
    · exact ⟨sep :: others, by simp⟩
    · simp

/-- What lies between keys of a chunk is inside it. -/
theorem insideChunk_between {base early middle late : Key} (first : early < middle)
    (second : middle < late) (inEarly : insideChunk base early = true)
    (inLate : insideChunk base late = true) : insideChunk base middle = true := by
  obtain ⟨tail, rfl⟩ := insideChunk_iff.mp inEarly
  obtain ⟨tail', rfl⟩ := insideChunk_iff.mp inLate
  exact insideChunk_iff.mpr (prefix_of_between ((le_append _ _).trans first.le) second.le)

section Found

variable {target : GcTarget} {key key' : Key} {located located' : Located}

theorem chunk_append_sep (found : locate target key = some located) :
    located.chunk key ++ [sep] = key.take located.revStart := by
  have placed := locateIn_spec found
  have positive : located.revStart - 1 + 1 = located.revStart := by
    have := placed.scope
    omega
  rw [Located.chunk, ← positive, take_add_one, placed.separated, Nat.add_sub_cancel]
  rfl

theorem insideChunk_of_locate (found : locate target key = some located) :
    insideChunk (located.chunk key) key = true := by
  rw [insideChunk_iff, chunk_append_sep found]
  exact take_prefix _ _

/-- The chunk of a key tells where its revision starts. -/
theorem length_chunk (found : locate target key = some located) :
    (located.chunk key).length + 1 = located.revStart := by
  have placed := locateIn_spec found
  have whole := congrArg length (chunk_append_sep found)
  rw [length_append, length_singleton, length_take, min_eq_left] at whole
  · exact whole
  · have := placed.long
    omega

/-- Keys of one chunk have one scope. -/
theorem scopeEnd_of_chunk (found : locate target key = some located)
    (found' : locate target key' = some located')
    (same : located.chunk key = located'.chunk key') : located.scopeEnd = located'.scopeEnd := by
  have placed := locateIn_spec found
  have placed' := locateIn_spec found'
  have starts : located.revStart = located'.revStart := by
    rw [← length_chunk found, ← length_chunk found', same]
  have shared : key.take located.revStart = key'.take located.revStart := by
    rw [← chunk_append_sep found, same, chunk_append_sep found', starts]
  exact separator_unique shared placed.scope (starts ▸ placed'.scope) placed.counted.1
    placed'.counted.1 (placed.counted.2.trans placed'.counted.2.symm)

theorem scope_of_chunk (found : locate target key = some located)
    (found' : locate target key' = some located')
    (same : located.chunk key = located'.chunk key') :
    key.take located.scopeEnd = key'.take located'.scopeEnd := by
  have scopes := scopeEnd_of_chunk found found' same
  have within := (locateIn_spec found).scope
  have within' := (locateIn_spec found').scope
  have fits : located.scopeEnd ≤ located.revStart - 1 := by omega
  have fits' : located'.scopeEnd ≤ located'.revStart - 1 := by omega
  have shared := congrArg (take located.scopeEnd) same
  rw [Located.chunk, Located.chunk, take_take, take_take, min_eq_left fits, scopes,
    min_eq_left fits'] at shared
  rw [scopes]
  exact shared

/-- The scope is part of the chunk. -/
theorem take_chunk (found : locate target key = some located) :
    (located.chunk key).take located.scopeEnd = key.take located.scopeEnd := by
  have within := (locateIn_spec found).scope
  rw [Located.chunk, take_take, min_eq_left (by omega)]

/-- There are sixteen bytes of revision. -/
theorem length_revision (found : locate target key = some located) :
    (located.revision key).length = 16 := by
  have := (locateIn_spec found).long
  rw [Located.revision, length_drop, length_take]
  omega

theorem decode_revision (found : locate target key = some located) :
    ∃ revision, Fits revision ∧ encodeDescending revision = located.revision key ∧
      decodeDescending (located.revision key) = some revision := by
  obtain ⟨revision, fits, encoded⟩ := exists_encodeDescending (length_revision found)
  exact ⟨revision, fits, encoded, encoded ▸ decode_encodeDescending fits⟩

/-- A located key is its chunk, its revision and what follows. -/
theorem key_eq_parts (found : locate target key = some located) :
    key = located.chunk key ++ sep :: located.revision key ++ key.drop (located.revStart + 16) := by
  have revision_eq : located.revision key = (key.drop located.revStart).take 16 := by
    rw [Located.revision, drop_take, Nat.add_sub_cancel_left]
  have split : key = key.take located.revStart ++ key.drop located.revStart :=
    (take_append_drop _ _).symm
  have behind : key.drop located.revStart =
      (key.drop located.revStart).take 16 ++ key.drop (located.revStart + 16) := by
    rw [← drop_drop, take_append_drop]
  conv_lhs => rw [split, ← chunk_append_sep found, behind, ← revision_eq]
  simp

/-- Behind the revision stands the tail, after a separator or at the end. -/
theorem behind_revision (isTarget : target ∈ gcTargets) (found : locate target key = some located) :
    key.drop (located.revStart + 16) =
      if target.layouts.all fun layout => layout.locator = .tail then []
      else sep :: located.tail key := by
  have placed := locateIn_spec found
  obtain ⟨layout, isLayout, ends⟩ := placed.ends
  rcases locators_uniform target isTarget with tails | trailing
  · rw [if_pos (by simpa using tails)]
    rw [tails layout isLayout] at ends
    rw [← Option.some.inj ends, drop_length]
  · have other : ¬(target.layouts.all fun layout => decide (layout.locator = .tail)) = true := by
      intro tails
      have isTail := all_eq_true.mp tails layout isLayout
      rcases trailing layout isLayout with one | four <;> simp_all
    rw [if_neg other]
    have counted : ∃ count, layout.locator = .beforeTrailing (count + 1) := by
      rcases trailing layout isLayout with one | four
      · exact ⟨0, one⟩
      · exact ⟨3, four⟩
    obtain ⟨count, locator_eq⟩ := counted
    rw [locator_eq, boundary, Option.map_eq_some_iff] at ends
    obtain ⟨before, isBefore, length⟩ := ends
    obtain ⟨shorter, here⟩ := beforeTrailing_spec isBefore
    rw [length] at shorter here
    obtain ⟨within, isSep⟩ := List.getElem?_eq_some_iff.mp here
    rw [drop_eq_getElem_cons within, isSep, Located.tail, min_eq_left (by omega)]

/-- A group has one key for each revision. -/
theorem key_unique (isTarget : target ∈ gcTargets) (found : locate target key = some located)
    (found' : locate target key' = some located')
    (sameChunk : located.chunk key = located'.chunk key')
    (sameTail : located.tail key = located'.tail key')
    (sameRevision : located.revision key = located'.revision key') : key = key' := by
  rw [key_eq_parts found, key_eq_parts found', behind_revision isTarget found,
    behind_revision isTarget found', sameChunk, sameTail, sameRevision]

end Found

end RaisinDB.History
