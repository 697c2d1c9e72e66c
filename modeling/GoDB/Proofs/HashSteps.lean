import GoDB.Indexing.ConcurrentHash
import GoDB.Proofs.IndexEntries

/-! What the steps of the calls on a hash index do, and what they keep: a bucket is in the
map until it is removed, and a bucket that was removed stays empty. -/

namespace GoDB.Indexing
open Common Lib Storage List Option MemHashIndex AList Bool

namespace SharedHashIndex

inductive Visited (index : SharedHashIndex) (id address : Nat) (bucket : Bucket) : HashCall → SharedHashIndex → Prop where
  | retried {call : HashCall} (removed : bucket.removed = true) (insists : ∀ key rid, call ≠ .deleteEntry key rid) :
    Visited index id address bucket call (index.goto id .loading)
  | inserted {key : Key} {rid : RecordID} (present : bucket.removed = false) :
    Visited index id address bucket (.insertEntry key rid)
      ((index.setBucket address { bucket with rids := bucket.rids ++ [rid] }).goto id (.finished .nil))
  | emptied {key : Key} {rid : RecordID} (removes : removeRid rid bucket.rids = some [])
    (filled : bucket.rids ≠ []) :
    Visited index id address bucket (.deleteEntry key rid)
      ((index.setBucket address { bucket with rids := [], removed := true, lock := some id }).goto id (.emptied address))
  | deleted {key : Key} {rid : RecordID} {left : List RecordID}
    (removes : removeRid rid bucket.rids = some left) (remains : left = [] → bucket.rids = []) :
    Visited index id address bucket (.deleteEntry key rid)
      ((index.setBucket address { bucket with rids := left }).goto id (.finished .nil))
  | scanned {key : Key} {output : List RecordID} (present : bucket.removed = false) :
    Visited index id address bucket (.scanKey key output) (index.goto id (.finished (.output (output ++ bucket.rids))))

inductive Steps (index : SharedHashIndex) : HashAction → SharedHashIndex → Prop where
  | invoked {call : HashCall} :
    Steps index (.invoke index.calls.length call) { index with calls := index.calls ++ [⟨call, .loading⟩] }
  | loaded {id address : Nat} {call : HashCall} (here : index.calls[id]? = some ⟨call, .loading⟩)
    (mapped : index.m.lookup call.key = some address) : Steps index (.load id) (index.goto id (.found address))
  | absent {id : Nat} {call : HashCall} (here : index.calls[id]? = some ⟨call, .loading⟩)
    (unmapped : index.m.lookup call.key = none) : Steps index (.load id) (index.goto id call.absent)
  | shared {id address : Nat} {call : HashCall} (here : index.calls[id]? = some ⟨call, .missing⟩)
    (mapped : index.m.lookup call.key = some address) : Steps index (.loadOrStore id) (index.goto id (.found address))
  | stored {id : Nat} {call : HashCall} (here : index.calls[id]? = some ⟨call, .missing⟩)
    (unmapped : index.m.lookup call.key = none) :
    Steps index (.loadOrStore id) ((index.store call.key).goto id (.found index.buckets.length))
  | entered {id address : Nat} {call : HashCall} {bucket : Bucket} {later : SharedHashIndex}
    (here : index.calls[id]? = some ⟨call, .found address⟩) (there : index.buckets[address]? = some bucket)
    (free : bucket.lock = none) (visited : Visited index id address bucket call later) : Steps index (.enter id) later
  | detached {id address : Nat} {call : HashCall} {bucket : Bucket}
    (here : index.calls[id]? = some ⟨call, .emptied address⟩) (there : index.buckets[address]? = some bucket) :
    Steps index (.detach id) ((index.detach call.key address bucket).goto id (.finished .nil))
  | responded {id : Nat} {call : HashCall} {answer : HashAnswer}
    (here : index.calls[id]? = some ⟨call, .finished answer⟩) : Steps index (.respond id answer) (index.goto id .returned)

variable {index later : SharedHashIndex} {id address : Nat} {bucket : Bucket} {call : HashCall}

theorem visited_of_visit (visits : index.visit id address bucket call = some later) :
    Visited index id address bucket call later := by
  cases call with
  | insertEntry key rid =>
    simp only [visit] at visits
    split at visits
    next removed =>
      cases visits
      exact .retried removed (by simp)
    next present =>
      cases visits
      exact .inserted (not_eq_true _ ▸ present)
  | deleteEntry key rid =>
    obtain ⟨left, removes, rest⟩ := bind_eq_some_iff.mp visits
    split at rest
    next emptied =>
      simp only [and_eq_true, List.isEmpty_iff, not_eq_true', List.isEmpty_eq_false_iff] at emptied
      obtain ⟨rfl, filled⟩ := emptied
      cases rest
      exact .emptied removes filled
    next remains =>
      cases rest
      refine .deleted removes fun gone => ?_
      simpa [gone] using remains
  | scanKey key output =>
    simp only [visit] at visits
    split at visits
    next removed =>
      cases visits
      exact .retried removed (by simp)
    next present =>
      cases visits
      exact .scanned (not_eq_true _ ▸ present)

variable {action : HashAction}

theorem steps_of_step (taken : index.step action = some later) : Steps index action later := by
  cases action with
  | invoke id call =>
    simp only [step] at taken
    split at taken
    next next =>
      cases taken
      rw [next.1]
      exact .invoked
    next => cases taken
  | load id =>
    simp only [step] at taken
    split at taken
    next call here =>
      cases taken
      cases mapped : index.m.lookup call.key with
      | some address => exact .loaded here mapped
      | none => exact .absent here mapped
    next => cases taken
  | loadOrStore id =>
    simp only [step] at taken
    split at taken
    next call here =>
      split at taken
      next address mapped =>
        cases taken
        exact .shared here mapped
      next unmapped =>
        cases taken
        exact .stored here unmapped
    next => cases taken
  | enter id =>
    simp only [step] at taken
    split at taken
    next call address here =>
      obtain ⟨bucket, there, rest⟩ := bind_eq_some_iff.mp taken
      split at rest
      next => cases rest
      next free => exact .entered here there (not_isSome_iff_eq_none.mp free) (visited_of_visit rest)
    next => cases taken
  | detach id =>
    simp only [step] at taken
    split at taken
    next call address here =>
      obtain ⟨bucket, there, rest⟩ := bind_eq_some_iff.mp taken
      cases rest
      exact .detached here there
    next => cases taken
  | respond id answer =>
    simp only [step] at taken
    split at taken
    next call result here =>
      split at taken
      next same =>
        cases taken
        cases same
        exact .responded here
      next => cases taken
    next => cases taken

def Stands (index : SharedHashIndex) (id : Nat) (running : RunningCall) : Prop :=
  match running.phase with
  | .found address => ∃ bucket, index.buckets[address]? = some bucket ∧ bucket.key = running.call.key
  | .emptied address => ∃ bucket, index.buckets[address]? = some bucket ∧ bucket.key = running.call.key ∧
      bucket.removed = true ∧ bucket.lock = some id ∧ index.m.lookup running.call.key = some address
  | .loading | .missing | .finished _ | .returned => True

/-- A bucket is in the map until it has been removed, and it is empty from then on. -/
structure Stored (index : SharedHashIndex) : Prop where
  mapped : ∀ {key : Key} {address : Nat}, index.m.lookup key = some address →
    ∃ bucket, index.buckets[address]? = some bucket ∧ bucket.key = key ∧ (bucket.removed = true → bucket.lock.isSome)
  attached : ∀ {address : Nat} {bucket : Bucket}, index.buckets[address]? = some bucket → bucket.removed = false →
    index.m.lookup bucket.key = some address
  cleared : ∀ {address : Nat} {bucket : Bucket}, index.buckets[address]? = some bucket → bucket.removed = true →
    bucket.rids = []
  distinct : ∀ {address : Nat} {bucket : Bucket}, index.buckets[address]? = some bucket → bucket.rids.Nodup

structure Sound (index : SharedHashIndex) : Prop where
  stored : Stored index
  stands : ∀ {id : Nat} {running : RunningCall}, index.calls[id]? = some running → Stands index id running

variable {phase : HashPhase} {other : Nat} {running : RunningCall}

theorem calls_goto (here : (index.goto id phase).calls[other]? = some running) :
    ∃ before, index.calls[other]? = some before ∧ before.call = running.call ∧
      running.phase = if other = id then phase else before.phase := by
  simp only [goto, getElem?_modify] at here
  obtain ⟨before, at_, rfl⟩ := map_eq_some_iff.mp here
  refine ⟨before, at_, ?_⟩
  by_cases same : id = other
  · subst other
    simp
  · simp [same, Ne.symm same]

theorem sound_new (metadata : IndexMetadata) : Sound (new metadata) where
  stored :=
    { mapped := fun absent => by cases absent
      attached := fun absent => by cases absent
      cleared := fun absent => by cases absent
      distinct := fun absent => by cases absent }
  stands absent := by cases absent

theorem Sound.goto (sound : Sound index) (same : later.calls = index.calls)
    (stored : Stored later) (frame : ∀ other running, other ≠ id → Stands index other running → Stands later other running)
    (mine : ∀ before, index.calls[id]? = some before → Stands later id ⟨before.call, phase⟩) :
    Sound (later.goto id phase) where
  stored := ⟨stored.mapped, stored.attached, stored.cleared, stored.distinct⟩
  stands {other running} here := by
    obtain ⟨before, at_, sameCall, phased⟩ := calls_goto here
    rw [same] at at_
    obtain ⟨call, phase'⟩ := running
    cases sameCall
    by_cases own : other = id
    · subst other
      rw [if_pos rfl] at phased
      cases phased
      exact mine before at_
    · rw [if_neg own] at phased
      cases phased
      exact frame other before own (sound.stands at_)

theorem Sound.moved (sound : Sound index)
    (mine : ∀ before, index.calls[id]? = some before → Stands index id ⟨before.call, phase⟩) : Sound (index.goto id phase) :=
  sound.goto rfl sound.stored (fun _ _ _ stands => stands) mine

variable {bucket' : Bucket}

theorem buckets_setBucket (there : index.buckets[address]? = some bucket) (place : Nat) :
    (index.setBucket address bucket').buckets[place]? = if place = address then some bucket' else index.buckets[place]? := by
  split
  next same =>
    subst place
    exact List.getElem?_set_self (List.getElem?_eq_some_iff.mp there).1
  next apart => exact getElem?_set_ne (Ne.symm apart)

theorem stands_setBucket
    (there : index.buckets[address]? = some bucket) (sameKey : bucket'.key = bucket.key) (unlocked : bucket.lock ≠ some other)
    (stands : Stands index other running) : Stands (index.setBucket address bucket') other running := by
  obtain ⟨call, phase⟩ := running
  cases phase with
  | found place =>
    obtain ⟨at_, located, keyed⟩ := stands
    by_cases same : place = address
    · subst place
      cases there.symm.trans located
      exact ⟨bucket', (buckets_setBucket there address).trans (if_pos rfl), sameKey.trans keyed⟩
    · exact ⟨at_, (buckets_setBucket there place).trans ((if_neg same).trans located), keyed⟩
  | emptied place =>
    obtain ⟨at_, located, keyed, removed, locked, mapped⟩ := stands
    have apart : place ≠ address := by
      intro same
      subst place
      cases there.symm.trans located
      exact unlocked locked
    exact ⟨at_, (buckets_setBucket there place).trans ((if_neg apart).trans located), keyed, removed, locked, mapped⟩
  | _ => trivial

theorem Stored.setBucket (stored : Stored index) (there : index.buckets[address]? = some bucket)
    (sameKey : bucket'.key = bucket.key) (present : bucket.removed = false)
    (removal : bucket'.removed = true → bucket'.rids = [] ∧ bucket'.lock.isSome) (distinct : bucket'.rids.Nodup) :
    Stored (index.setBucket address bucket') where
  mapped {key place} mapped := by
    obtain ⟨at_, located, keyed, held⟩ := stored.mapped mapped
    by_cases same : place = address
    · subst place
      cases there.symm.trans located
      exact ⟨bucket', (buckets_setBucket there address).trans (if_pos rfl), sameKey.trans keyed,
        fun removed => (removal removed).2⟩
    · exact ⟨at_, (buckets_setBucket there place).trans ((if_neg same).trans located), keyed, held⟩
  attached {place at_} located kept := by
    rw [buckets_setBucket there] at located
    split at located
    next same =>
      cases located
      rw [sameKey, same]
      exact stored.attached there present
    next => exact stored.attached located kept
  cleared {place at_} located removed := by
    rw [buckets_setBucket there] at located
    split at located
    next =>
      cases located
      exact (removal removed).1
    next => exact stored.cleared located removed
  distinct {place at_} located := by
    rw [buckets_setBucket there] at located
    split at located
    next =>
      cases located
      exact distinct
    next => exact stored.distinct located

theorem Sound.current (sound : Sound index) (here : index.calls[id]? = some ⟨call, .found address⟩)
    (there : index.buckets[address]? = some bucket) (present : bucket.removed = false) :
    bucket.key = call.key ∧ index.m.lookup call.key = some address := by
  obtain ⟨at_, located, keyed⟩ := sound.stands here
  cases there.symm.trans located
  exact ⟨keyed, keyed ▸ sound.stored.attached there present⟩

variable {key : Key}

theorem buckets_store (place : Nat) : (index.store key).buckets[place]? =
      if place = index.buckets.length then some ⟨key, [], false, none⟩ else index.buckets[place]? := by
  simp only [store]
  split
  next same => rw [same, getElem?_concat_length]
  next apart =>
    by_cases old : place < index.buckets.length
    · exact getElem?_append_left old
    · rw [getElem?_eq_none (by simp; omega), getElem?_eq_none (by omega)]

theorem Stored.store (stored : Stored index) (unmapped : index.m.lookup key = none) : Stored (index.store key) where
  mapped {other place} mapped := by
    by_cases same : other = key
    · subst other
      cases some.inj ((lookup_insert index.m).symm.trans mapped)
      exact ⟨_, (buckets_store _).trans (if_pos rfl), rfl, by simp⟩
    · have old : index.m.lookup other = some place := (lookup_insert_ne same).symm.trans mapped
      obtain ⟨at_, located, keyed, held⟩ := stored.mapped old
      have apart : place ≠ index.buckets.length := Nat.ne_of_lt (List.getElem?_eq_some_iff.mp located).1
      exact ⟨at_, (buckets_store place).trans ((if_neg apart).trans located), keyed, held⟩
  attached {place at_} located kept := by
    rw [buckets_store] at located
    split at located
    next same =>
      cases located
      rw [same]
      exact lookup_insert index.m
    next =>
      have old := stored.attached located kept
      have apart : at_.key ≠ key := by
        intro same
        rw [same, unmapped] at old
        cases old
      exact (lookup_insert_ne apart).trans old
  cleared {place at_} located removed := by
    rw [buckets_store] at located
    split at located
    next => cases located; rfl
    next => exact stored.cleared located removed
  distinct {place at_} located := by
    rw [buckets_store] at located
    split at located
    next => cases located; exact nodup_nil
    next => exact stored.distinct located

theorem stands_store
    (unmapped : index.m.lookup key = none) (stands : Stands index other running) : Stands (index.store key) other running := by
  obtain ⟨call, phase⟩ := running
  have kept {place : Nat} {at_ : Bucket} (located : index.buckets[place]? = some at_) :
      (index.store key).buckets[place]? = some at_ := by
    rw [buckets_store, if_neg (Nat.ne_of_lt (List.getElem?_eq_some_iff.mp located).1), located]
  cases phase with
  | found place =>
    obtain ⟨at_, located, keyed⟩ := stands
    exact ⟨at_, kept located, keyed⟩
  | emptied place =>
    obtain ⟨at_, located, keyed, removed, locked, mapped⟩ := stands
    have apart : call.key ≠ key := by
      intro same
      rw [same, unmapped] at mapped
      cases mapped
    exact ⟨at_, kept located, keyed, removed, locked, (lookup_insert_ne apart).trans mapped⟩
  | _ => trivial

theorem Stored.detach (stored : Stored index) (there : index.buckets[address]? = some bucket)
    (removed : bucket.removed = true) (mapped : index.m.lookup bucket.key = some address) :
    Stored (index.detach bucket.key address bucket) where
  mapped {key place} found := by
    have apart : key ≠ bucket.key := by
      rintro rfl
      cases (lookup_erase _ _).symm.trans found
    obtain ⟨at_, located, keyed, held⟩ := stored.mapped ((lookup_erase_ne apart).symm.trans found)
    have elsewhere : place ≠ address := by
      rintro rfl
      cases there.symm.trans located
      exact apart keyed.symm
    exact ⟨at_, (buckets_setBucket there place).trans ((if_neg elsewhere).trans located), keyed, held⟩
  attached {place at_} located kept := by
    have located := (buckets_setBucket there place).symm.trans located
    split at located
    next =>
      cases located
      cases removed.symm.trans kept
    next elsewhere =>
      have old := stored.attached located kept
      have apart : at_.key ≠ bucket.key := by
        intro same
        rw [same, mapped] at old
        exact elsewhere (some.inj old).symm
      exact (lookup_erase_ne apart).trans old
  cleared {place at_} located gone := by
    have located := (buckets_setBucket there place).symm.trans located
    split at located
    next =>
      have empty := stored.cleared there removed
      cases located
      exact empty
    next => exact stored.cleared located gone
  distinct {place at_} located := by
    have located := (buckets_setBucket there place).symm.trans located
    split at located
    next =>
      have nodup := stored.distinct there
      cases located
      exact nodup
    next => exact stored.distinct located

theorem stands_detach (there : index.buckets[address]? = some bucket) (locked : bucket.lock = some id)
    (mapped : index.m.lookup bucket.key = some address) (apart : other ≠ id) (stands : Stands index other running) :
    Stands (index.detach bucket.key address bucket) other running := by
  have unlocked : bucket.lock ≠ some other := by
    rw [locked]
    exact fun same => apart (some.inj same).symm
  refine @stands_setBucket { index with m := index.m.erase bucket.key } address bucket other running _ there rfl unlocked ?_
  obtain ⟨call, phase⟩ := running
  cases phase with
  | emptied place =>
    obtain ⟨at_, located, keyed, removed, held, found⟩ := stands
    have elsewhere : call.key ≠ bucket.key := by
      intro same
      rw [same, mapped] at found
      cases some.inj found
      cases there.symm.trans located
      exact unlocked held
    exact ⟨at_, located, keyed, removed, held, (lookup_erase_ne elsewhere).trans found⟩
  | found place => exact stands
  | _ => trivial

variable {rid : RecordID} {left : List RecordID}

theorem Stored.left_perm (stored : Stored index) (there : index.buckets[address]? = some bucket)
    (removes : removeRid rid bucket.rids = some left) : left.Perm (bucket.rids.erase rid) := by
  obtain ⟨left', removes', perm⟩ := @removeRid_of_nodup rid _ (stored.distinct there)
  cases removes.symm.trans removes'
  exact perm

theorem setBucket_of_removed (stored : Stored index) (there : index.buckets[address]? = some bucket)
    (removed : bucket.removed = true) (removes : removeRid rid bucket.rids = some left) :
    index.setBucket address { bucket with rids := left } = index := by
  have empty := stored.cleared there removed
  have perm := stored.left_perm there removes
  have same : left = bucket.rids := by
    rw [empty] at perm ⊢
    exact perm.eq_nil
  have unchanged : { bucket with rids := left } = bucket := by rw [same]
  obtain ⟨inside, at_⟩ := List.getElem?_eq_some_iff.mp there
  rw [unchanged, ← at_]
  simp [setBucket]

theorem sound_visited (sound : Sound index) (here : index.calls[id]? = some ⟨call, .found address⟩)
    (there : index.buckets[address]? = some bucket) (free : bucket.lock = none) (fresh : Fresh index (.enter id))
    (visited : Visited index id address bucket call later) : Sound later := by
  have unlocked (other : Nat) : bucket.lock ≠ some other := by simp [free]
  cases visited with
  | retried => exact sound.moved fun _ _ => trivial
  | @inserted key rid present =>
    obtain ⟨keyed, mapped⟩ := sound.current here there present
    have absent : rid ∉ bucket.rids := fun listed =>
      fresh id key rid address bucket rfl here there present ⟨address, bucket, mapped, there, listed⟩
    refine sound.goto rfl (sound.stored.setBucket there rfl present ?_ ?_)
      (fun other _ _ => stands_setBucket there rfl (unlocked other)) fun _ _ => trivial
    · intro removed
      cases present.symm.trans removed
    · exact nodup_append_comm.mp (nodup_cons.mpr ⟨absent, sound.stored.distinct there⟩)
  | emptied removes filled =>
    have present : bucket.removed = false := by
      by_contra removed
      exact filled (sound.stored.cleared there (not_eq_false _ ▸ removed))
    obtain ⟨keyed, mapped⟩ := sound.current here there present
    refine sound.goto rfl (sound.stored.setBucket there rfl present (fun _ => ⟨rfl, rfl⟩) nodup_nil)
      (fun other _ _ => stands_setBucket there rfl (unlocked other)) fun before at_ => ?_
    cases here.symm.trans at_
    exact ⟨_, (buckets_setBucket there address).trans (if_pos rfl), keyed, rfl, rfl, mapped⟩
  | deleted removes =>
    by_cases removed : bucket.removed = true
    · rw [setBucket_of_removed sound.stored there removed removes]
      exact sound.moved fun _ _ => trivial
    · have present := not_eq_true _ ▸ removed
      have perm := sound.stored.left_perm there removes
      exact sound.goto rfl (sound.stored.setBucket there rfl present (fun removed' => absurd removed' removed)
        (perm.nodup_iff.mpr ((sound.stored.distinct there).erase _)))
        (fun other _ _ => stands_setBucket there rfl (unlocked other)) fun _ _ => trivial
  | scanned => exact sound.moved fun _ _ => trivial

theorem sound_step (sound : Sound index) (fresh : Fresh index action) (taken : Steps index action later) : Sound later := by
  cases taken with
  | @invoked call =>
    refine ⟨⟨sound.stored.mapped, sound.stored.attached, sound.stored.cleared, sound.stored.distinct⟩, ?_⟩
    intro other running here
    rw [getElem?_append] at here
    split at here
    next => exact sound.stands here
    next =>
      cases mem_singleton.mp (mem_of_getElem? here)
      trivial
  | loaded here mapped | shared here mapped =>
    refine sound.moved fun before at_ => ?_
    cases here.symm.trans at_
    obtain ⟨bucket, there, keyed, -⟩ := sound.stored.mapped mapped
    exact ⟨bucket, there, keyed⟩
  | @absent id call here =>
    refine sound.moved fun before at_ => ?_
    cases here.symm.trans at_
    cases call <;> trivial
  | stored here unmapped =>
    refine sound.goto rfl (sound.stored.store unmapped) (fun _ _ _ => stands_store unmapped) fun before at_ => ?_
    cases here.symm.trans at_
    exact ⟨_, (buckets_store _).trans (if_pos rfl), rfl⟩
  | entered here there free visited => exact sound_visited sound here there free fresh visited
  | detached here there =>
    obtain ⟨at_, located, keyed, removed, locked, mapped⟩ := sound.stands here
    cases there.symm.trans located
    rw [← keyed] at mapped ⊢
    exact sound.goto rfl (sound.stored.detach there removed mapped)
      (fun _ _ apart => stands_detach there locked mapped apart) fun _ _ => trivial
  | responded => exact sound.moved fun _ _ => trivial

end SharedHashIndex
end GoDB.Indexing
