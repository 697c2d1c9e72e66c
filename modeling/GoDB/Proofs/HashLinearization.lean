import GoDB.Proofs.HashSteps

/-! The calls on a hash index take effect one at a time. An insertion and a scan take effect
under the lock of the bucket. A deletion that finds its bucket removed took effect when the
bucket lost its last record, or when the call found the bucket after that. -/

namespace GoDB.Indexing
open Common Lib Storage Linearization List Option Function AList

namespace SharedHashIndex
variable {index later : SharedHashIndex} {id address : Nat} {bucket : Bucket} {call : HashCall} {key : Key} {rid : RecordID}

theorem mem_pairs (mapped : index.m.lookup key = some address)
    (there : index.buckets[address]? = some bucket) : (key, rid) ∈ index.pairs ↔ rid ∈ bucket.rids := by
  constructor
  · rintro ⟨place, at_, found, located, listed⟩
    cases mapped.symm.trans found
    cases there.symm.trans located
    exact listed
  · intro listed
    exact ⟨address, bucket, mapped, there, listed⟩

theorem not_mem_pairs (unmapped : index.m.lookup key = none) : (key, rid) ∉ index.pairs := by
  rintro ⟨place, at_, found, -⟩
  cases unmapped.symm.trans found

theorem mem_pairs_congr (looked : later.m.lookup key = index.m.lookup key)
    (kept : ∀ place, index.m.lookup key = some place → later.buckets[place]? = index.buckets[place]?) :
    (key, rid) ∈ later.pairs ↔ (key, rid) ∈ index.pairs := by
  constructor
  · rintro ⟨place, at_, found, located, listed⟩
    rw [looked] at found
    exact ⟨place, at_, found, (kept place found).symm.trans located, listed⟩
  · rintro ⟨place, at_, found, located, listed⟩
    exact ⟨place, at_, looked.trans found, (kept place found).trans located, listed⟩

theorem Stored.apart (stored : Stored index) (there : index.buckets[address]? = some bucket)
    (apart : key ≠ bucket.key) {place : Nat} (found : index.m.lookup key = some place) : place ≠ address := by
  rintro rfl
  obtain ⟨at_, located, keyed, -⟩ := stored.mapped found
  cases there.symm.trans located
  exact apart keyed.symm

variable {bucket' : Bucket}

section
variable (stored : Stored index)

include stored

theorem pairs_setBucket (there : index.buckets[address]? = some bucket)
    (mapped : index.m.lookup bucket.key = some address) (key : Key) (rid : RecordID) :
    (key, rid) ∈ (index.setBucket address bucket').pairs ↔
      if key = bucket.key then rid ∈ bucket'.rids else (key, rid) ∈ index.pairs := by
  split
  next same =>
    subst key
    exact mem_pairs mapped ((buckets_setBucket there address).trans (if_pos rfl))
  next apart =>
    exact mem_pairs_congr rfl fun place found =>
      (buckets_setBucket there place).trans (if_neg (stored.apart there apart found))

theorem pairs_store (unmapped : index.m.lookup key = none) : (index.store key).pairs = index.pairs := by
  ext ⟨other, rid⟩
  by_cases same : other = key
  · subst other
    have created := @mem_pairs (index.store key) _ _ key rid (lookup_insert index.m) ((buckets_store _).trans (if_pos rfl))
    exact created.trans (iff_of_false not_mem_nil (not_mem_pairs unmapped))
  · refine mem_pairs_congr (lookup_insert_ne same) fun place found => ?_
    obtain ⟨at_, located, -⟩ := stored.mapped found
    exact (buckets_store place).trans (if_neg (Nat.ne_of_lt (List.getElem?_eq_some_iff.mp located).1))

theorem Stored.absent (mapped : index.m.lookup key = some address)
    (there : index.buckets[address]? = some bucket) (removed : bucket.removed = true) : (key, rid) ∉ index.pairs := by
  rw [mem_pairs mapped there, stored.cleared there removed]
  exact not_mem_nil

theorem pairs_detach (there : index.buckets[address]? = some bucket)
    (removed : bucket.removed = true) (mapped : index.m.lookup bucket.key = some address) :
    (index.detach bucket.key address bucket).pairs = index.pairs := by
  ext ⟨key, rid⟩
  by_cases same : key = bucket.key
  · subst key
    exact iff_of_false (not_mem_pairs (lookup_erase _ _)) (stored.absent mapped there removed)
  · exact mem_pairs_congr (lookup_erase_ne same) fun place found =>
      (buckets_setBucket there place).trans (if_neg (stored.apart there same found))

end

def standing (index : SharedHashIndex) (running : RunningCall) : Progress HashAnswer :=
  match running.phase with
  | .finished answer => .took answer
  | .emptied _ => .took .nil
  | .found address =>
    match running.call with
    | .deleteEntry _ _ => if (index.buckets[address]?).any Bucket.removed then .took .nil else .pending
    | .insertEntry _ _ | .scanKey _ _ => .pending
  | .loading | .missing => .pending
  | .returned => .returned

theorem standing_congr (same : ∀ place : Nat, (later.buckets[place]?).any Bucket.removed =
    (index.buckets[place]?).any Bucket.removed) : standing later = standing index := by
  funext ⟨call, phase⟩
  cases phase with
  | found place => cases call <;> simp only [standing, same]
  | _ => rfl

def view (index : SharedHashIndex) (running : RunningCall) : HashCall × Progress HashAnswer :=
  (running.call, standing index running)

abbrev Explains (index : SharedHashIndex) (history : List (Event HashCall HashAnswer))
    (order : List (Effect HashCall HashAnswer)) : Prop :=
  Explained SetOfPairs ∅ (progressOf index.view index.calls) history order index.pairs

variable {history : List (Event HashCall HashAnswer)} {order : List (Effect HashCall HashAnswer)} {old phase : HashPhase}
variable {running : RunningCall}

theorem turned_goto (here : index.calls[id]? = some ⟨call, old⟩) (same : later.calls = index.calls) :
    Turned index.calls (later.goto id phase).calls id ⟨call, phase⟩ := by
  rw [goto, same]
  exact turned_modify here _

theorem Explains.silent (explained : Explains index history order) (here : index.calls[id]? = some ⟨call, old⟩)
    (same : later.calls = index.calls) (pairs : later.pairs = index.pairs) (kept : standing later = standing index)
    (mine : standing later ⟨call, phase⟩ = standing index ⟨call, old⟩) : Explains (later.goto id phase) history order := by
  have silent := Explained.silent explained (turned_goto here same) (fun _ _ _ _ => congrArg (Prod.mk _) (congrFun kept _)) here
    (congrArg (Prod.mk call) mine)
  rwa [← pairs] at silent

theorem Explains.single (explained : Explains index history order) {answer : HashAnswer}
    (here : index.calls[id]? = some ⟨call, old⟩) (idle : standing index ⟨call, old⟩ = .pending)
    (same : later.calls = index.calls) (made : SetOfPairs index.pairs call answer later.pairs)
    (kept : standing later = standing index) (mine : standing later ⟨call, phase⟩ = .took answer) :
    Explains (later.goto id phase) history (order ++ [⟨id, call, answer⟩]) :=
  Explained.single explained (turned_goto here same) (fun _ _ _ _ => congrArg (Prod.mk _) (congrFun kept _)) here
    (congrArg (Prod.mk call) idle) (congrArg (Prod.mk call) mine) made

theorem pairs_delete (stored : Stored index)
    (there : index.buckets[address]? = some bucket) (mapped : index.m.lookup bucket.key = some address)
    (perm : bucket'.rids.Perm (bucket.rids.erase rid)) :
    (index.setBucket address bucket').pairs = index.pairs \ {(bucket.key, rid)} := by
  ext ⟨key, other⟩
  rw [pairs_setBucket stored there mapped, Set.mem_sdiff, Set.mem_singleton_iff, Prod.mk.injEq]
  split
  next same =>
    subst key
    rw [mem_pairs mapped there, perm.mem_iff, (stored.distinct there).mem_erase_iff, and_comm]
    simp
  next apart => simp only [apart, false_and, not_false_iff, and_true]

theorem pairs_insert (stored : Stored index) (there : index.buckets[address]? = some bucket)
    (mapped : index.m.lookup bucket.key = some address) :
    (index.setBucket address { bucket with rids := bucket.rids ++ [rid] }).pairs = insert (bucket.key, rid) index.pairs := by
  ext ⟨key, other⟩
  rw [pairs_setBucket stored there mapped, Set.mem_insert_iff, Prod.mk.injEq]
  split
  next same =>
    subst key
    rw [mem_pairs mapped there, mem_append, mem_singleton, or_comm]
    simp
  next apart => simp only [apart, false_and, false_or]

theorem idle_delete {pairs : Set (Key × RecordID)} (absent : (key, rid) ∉ pairs) :
    SetOfPairs pairs (.deleteEntry key rid) .nil pairs := by
  have effect := @SetOfPairs.deleteEntry pairs key rid
  rwa [Set.sdiff_singleton_eq_self absent] at effect

theorem standing_of_present (there : index.buckets[address]? = some bucket) (present : bucket.removed = false)
    (call : HashCall) : standing index ⟨call, .found address⟩ = .pending := by
  cases call <;> simp [standing, there, present]

theorem explains_found (sound : Sound index) (explained : Explains index history order)
    (here : index.calls[id]? = some ⟨call, old⟩) (idle : standing index ⟨call, old⟩ = .pending)
    (mapped : index.m.lookup call.key = some address) : ∃ order, Explains (index.goto id (.found address)) history order := by
  obtain ⟨bucket, there, -⟩ := sound.stored.mapped mapped
  cases call with
  | insertEntry | scanKey => exact ⟨order, explained.silent here rfl rfl rfl idle.symm⟩
  | deleteEntry key rid =>
    by_cases removed : bucket.removed = true
    · refine ⟨_, explained.single here idle rfl (idle_delete (sound.stored.absent mapped there removed)) rfl ?_⟩
      simp [standing, there, removed]
    · refine ⟨order, explained.silent here rfl rfl rfl ?_⟩
      rw [standing_of_present there (Bool.not_eq_true _ ▸ removed), idle]

theorem exists_waiting (index : SharedHashIndex) (id address : Nat) :
    ∃ waiting : List (Effect HashCall HashAnswer), (waiting.map Effect.id).Nodup ∧ ∀ effect, effect ∈ waiting ↔
      effect.id ≠ id ∧ index.calls[effect.id]? = some ⟨effect.call, .found address⟩ ∧
      (∃ key rid, effect.call = .deleteEntry key rid) ∧ effect.answer = .nil := by
  refine @exists_listing _ _ index.calls.length _ (fun effect holds => (List.getElem?_eq_some_iff.mp holds.2.1).1) ?_
  rintro ⟨one, oneCall, _⟩ ⟨other, otherCall, _⟩ ⟨-, first, -, rfl⟩ ⟨-, second, -, rfl⟩ same
  cases same
  cases first.symm.trans second
  rfl

theorem standing_elsewhere (there : index.buckets[address]? = some bucket)
    (elsewhere : ∀ key rid, running ≠ ⟨.deleteEntry key rid, .found address⟩) :
    standing (index.setBucket address bucket') running = standing index running := by
  obtain ⟨call, phase⟩ := running
  cases phase with
  | found place =>
    cases call with
    | deleteEntry key rid =>
      have apart : place ≠ address := fun same => elsewhere key rid (by rw [same])
      simp only [standing, buckets_setBucket there, if_neg apart]
    | insertEntry | scanKey => rfl
  | _ => rfl

theorem explains_emptied (sound : Sound index) (explained : Explains index history order)
    (here : index.calls[id]? = some ⟨.deleteEntry key rid, .found address⟩)
    (there : index.buckets[address]? = some bucket) (present : bucket.removed = false)
    (removes : MemHashIndex.removeRid rid bucket.rids = some []) (empty : bucket'.rids = [])
    (removed : bucket'.removed = true) :
    ∃ order, Explains ((index.setBucket address bucket').goto id (.emptied address)) history order := by
  obtain ⟨keyed, mapped⟩ := sound.current here there present
  rw [← keyed] at mapped
  have made : SetOfPairs index.pairs (.deleteEntry key rid) .nil (index.setBucket address bucket').pairs := by
    rw [pairs_delete sound.stored there mapped (empty ▸ sound.stored.left_perm there removes), keyed]
    exact .deleteEntry
  have turns : Turned index.calls (goto (index.setBucket address bucket') id (.emptied address)).calls id _ :=
    turned_goto here rfl
  have waits : index.view ⟨.deleteEntry key rid, .found address⟩ = (.deleteEntry key rid, .pending) :=
    congrArg _ (standing_of_present there present _)
  have first := explained.effect ((progressOf_of here).trans (congrArg some waits)) made
  obtain ⟨waiting, distinct, exactly⟩ := exists_waiting index id address
  refine ⟨_, first.effects distinct (fun effect listed => ?_) (fun effect listed => ?_) fun other unlisted => ?_⟩
  · obtain ⟨id', call', answer'⟩ := effect
    obtain ⟨apart, at_, ⟨key', rid', rfl⟩, rfl⟩ := (exactly _).mp listed
    obtain ⟨at', located, keyed'⟩ := sound.stands at_
    cases there.symm.trans located
    have keyed' : key' = bucket.key := keyed'.symm
    rw [update_of_ne apart, progressOf_of at_, view, standing_of_present there present]
    refine ⟨rfl, idle_delete ?_⟩
    rw [pairs_setBucket sound.stored there mapped, if_pos keyed', empty]
    exact not_mem_nil
  · obtain ⟨id', call', answer'⟩ := effect
    obtain ⟨apart, at_, ⟨key', rid', rfl⟩, rfl⟩ := (exactly _).mp listed
    rw [progressOf_of ((turns.other apart).trans at_)]
    simp [view, standing, goto, buckets_setBucket there, removed]
  · rcases eq_or_ne other id with rfl | apart
    · rw [update_self]
      exact progressOf_of turns.self
    · rw [update_of_ne apart, progressOf, progressOf, turns.other apart]
      refine map_congr fun running at_ => congrArg _ (standing_elsewhere there ?_)
      rintro key' rid' rfl
      exact unlisted (mem_map_of_mem
        ((exactly ⟨other, .deleteEntry key' rid', .nil⟩).mpr ⟨apart, at_, ⟨key', rid', rfl⟩, rfl⟩))

theorem standing_setBucket {rids : List RecordID} (there : index.buckets[address]? = some bucket) :
    standing (index.setBucket address { bucket with rids }) = standing index := by
  refine standing_congr fun place => ?_
  rw [buckets_setBucket there]
  split
  next same => rw [same, there, any_some, any_some]
  next => rfl

theorem explains_visited (sound : Sound index) (explained : Explains index history order)
    (here : index.calls[id]? = some ⟨call, .found address⟩) (there : index.buckets[address]? = some bucket)
    (visited : Visited index id address bucket call later) : ∃ order, Explains later history order := by
  cases visited with
  | retried removed insists =>
    refine ⟨order, explained.silent here rfl rfl rfl ?_⟩
    cases call with
    | insertEntry | scanKey => rfl
    | deleteEntry key rid => exact absurd rfl (insists key rid)
  | inserted present =>
    obtain ⟨keyed, mapped⟩ := sound.current here there present
    refine ⟨_, explained.single here (standing_of_present there present _) rfl ?_ (standing_setBucket there) rfl⟩
    rw [pairs_insert sound.stored there (keyed ▸ mapped), keyed]
    exact .insertEntry
  | emptied removes filled =>
    have present : bucket.removed = false := by
      by_contra removed
      exact filled (sound.stored.cleared there (Bool.not_eq_false _ ▸ removed))
    exact explains_emptied sound explained here there present removes rfl rfl
  | deleted removes =>
    by_cases removed : bucket.removed = true
    · rw [setBucket_of_removed sound.stored there removed removes]
      refine ⟨order, explained.silent here rfl rfl rfl ?_⟩
      simp [standing, there, removed]
    · have present := Bool.not_eq_true _ ▸ removed
      obtain ⟨keyed, mapped⟩ := sound.current here there present
      refine ⟨_, explained.single here (standing_of_present there present _) rfl ?_ (standing_setBucket there) rfl⟩
      rw [pairs_delete sound.stored there (keyed ▸ mapped) (sound.stored.left_perm there removes), keyed]
      exact .deleteEntry
  | scanned present =>
    obtain ⟨-, mapped⟩ := sound.current here there present
    refine ⟨_, explained.single here (standing_of_present there present _) rfl ?_ rfl rfl⟩
    exact .scanKey (sound.stored.distinct there) fun rid => (mem_pairs mapped there).symm

theorem explains_absent (explained : Explains index history order)
    (here : index.calls[id]? = some ⟨call, .loading⟩) (unmapped : index.m.lookup call.key = none) :
    ∃ order, Explains (index.goto id call.absent) history order := by
  cases call with
  | insertEntry => exact ⟨order, explained.silent here rfl rfl rfl rfl⟩
  | deleteEntry => exact ⟨_, explained.single here rfl rfl (idle_delete (not_mem_pairs unmapped)) rfl rfl⟩
  | scanKey key output =>
    refine ⟨_, explained.single here rfl rfl ?_ rfl rfl⟩
    have effect : SetOfPairs index.pairs (.scanKey key output) (.output (output ++ [])) index.pairs :=
      .scanKey nodup_nil fun rid => iff_of_false not_mem_nil (not_mem_pairs unmapped)
    rwa [append_nil] at effect

theorem standing_store : standing (index.store key) = standing index := by
  refine standing_congr fun place => ?_
  rw [buckets_store]
  split
  next same =>
    subst place
    rw [getElem?_eq_none (Nat.le_refl _), any_some, any_none]
  next => rfl

theorem standing_detach (there : index.buckets[address]? = some bucket) :
    standing (index.detach key address bucket) = standing index := by
  refine standing_congr fun place => (congrArg _ (buckets_setBucket there place)).trans ?_
  split
  next same => rw [same, there, any_some, any_some]
  next => rfl

variable {action : HashAction}

theorem explains_step (sound : Sound index) (explained : Explains index history order)
    (taken : Steps index action later) : ∃ order, Explains later (history ++ action.event.toList) order := by
  have quietly {later : SharedHashIndex} (explains : ∃ order, Explains later history order) :
      ∃ order, Explains later (history ++ (none : Option (Event HashCall HashAnswer)).toList) order := by
    rwa [toList_none, append_nil]
  cases taken with
  | invoked => exact ⟨order, explained.entered (turned_concat _ _) (fun _ _ _ _ => rfl) (getElem?_eq_none le_rfl) rfl⟩
  | loaded here mapped => exact quietly (explains_found sound explained here rfl mapped)
  | shared here mapped => exact quietly (explains_found sound explained here rfl mapped)
  | absent here unmapped => exact quietly (explains_absent explained here unmapped)
  | @stored id call here unmapped =>
    have created : (index.store call.key).buckets[index.buckets.length]? = some ⟨call.key, [], false, none⟩ :=
      (buckets_store _).trans (if_pos rfl)
    exact quietly ⟨order, explained.silent here rfl (pairs_store sound.stored unmapped) standing_store
      (standing_of_present created rfl _)⟩
  | entered here there _ visited => exact quietly (explains_visited sound explained here there visited)
  | detached here there =>
    obtain ⟨at_, located, keyed, removed, -, mapped⟩ := sound.stands here
    cases there.symm.trans located
    rw [← keyed] at mapped ⊢
    exact quietly ⟨order, explained.silent here rfl (pairs_detach sound.stored there removed mapped)
      (standing_detach there) rfl⟩
  | @responded id call answer here =>
    exact ⟨order, explained.answered (turned_goto here rfl) (fun _ _ _ _ => rfl) here rfl rfl⟩

variable {metadata : IndexMetadata} {steps : List (Taken SharedHashIndex HashAction)} {final : SharedHashIndex}

section
variable (run : Run Stepped (new metadata) steps final)

include run

theorem sound_run (fresh : ∀ taken ∈ steps, Fresh taken.before taken.label) : Sound final :=
  run.invariant_when Fresh Sound (sound_new metadata)
    (fun _ _ _ sound fresh taken => sound_step sound fresh (steps_of_step taken)) fresh

theorem explains_run (fresh : ∀ taken ∈ steps, Fresh taken.before taken.label) :
    ∃ order, Explains final (steps.filterMap (·.label.event)) order := by
  induction run with
  | nil =>
    have empty : (new metadata).pairs = ∅ := Set.eq_empty_of_forall_notMem fun _ => not_mem_pairs rfl
    refine ⟨[], ?_⟩
    rw [Explains, empty]
    exact .nil
  | snoc earlier taken ih =>
    obtain ⟨before, -⟩ := forall_mem_append.mp fresh
    obtain ⟨order, explained⟩ := ih before
    rw [filterMap_concat]
    exact explains_step (sound_run earlier before) explained (steps_of_step taken)

omit run in
theorem unlocked_of_steps (taken : Steps index action later)
    (there : later.buckets[address]? = some bucket) (removed : bucket.removed = true) (free : bucket.lock = none) :
    (∃ bucket, index.buckets[address]? = some bucket ∧ bucket.removed = true ∧ bucket.lock = none) ∨
      action = .detach action.id := by
  have unchanged (same : later.buckets = index.buckets) :
      ∃ bucket, index.buckets[address]? = some bucket ∧ bucket.removed = true ∧ bucket.lock = none :=
    ⟨bucket, same ▸ there, removed, free⟩
  have replaced {place : Nat} {old new : Bucket} (at_ : index.buckets[place]? = some old)
      (same : later.buckets = (index.setBucket place new).buckets) (kept : new.removed = true → new.lock = none →
        old.removed = true ∧ old.lock = none) :
      ∃ bucket, index.buckets[address]? = some bucket ∧ bucket.removed = true ∧ bucket.lock = none := by
    rw [same, buckets_setBucket at_] at there
    split at there
    next here =>
      cases there
      exact ⟨old, here ▸ at_, kept removed free⟩
    next => exact ⟨bucket, there, removed, free⟩
  cases taken with
  | stored =>
    have there := (buckets_store address).symm.trans there
    split at there
    next =>
      cases there
      cases removed
    next => exact .inl ⟨bucket, there, removed, free⟩
  | entered here at_ open_ visited =>
    cases visited with
    | retried | scanned => exact .inl (unchanged rfl)
    | inserted => exact .inl (replaced at_ rfl fun removed free => ⟨removed, free⟩)
    | emptied => exact .inl (replaced at_ rfl fun _ free => by cases free)
    | deleted => exact .inl (replaced at_ rfl fun removed free => ⟨removed, free⟩)
  | detached => exact .inr rfl
  | _ => exact .inl (unchanged rfl)

omit run in
theorem found_goto {own : Nat} {phase : HashPhase} (here : (index.goto own phase).calls[id]? = some ⟨call, .found address⟩) :
    own ≠ id ∧ index.calls[id]? = some ⟨call, .found address⟩ ∨
      own = id ∧ phase = .found address ∧ ∃ old, index.calls[id]? = some ⟨call, old⟩ := by
  obtain ⟨⟨call', old⟩, at_, sameCall, phased⟩ := calls_goto here
  cases sameCall
  by_cases same : id = own
  · rw [if_pos same] at phased
    exact .inr ⟨same.symm, phased.symm, old, at_⟩
  · rw [if_neg same] at phased
    cases phased
    exact .inl ⟨Ne.symm same, at_⟩

omit run in
theorem found_of_steps (taken : Steps index action later) (here : later.calls[id]? = some ⟨call, .found address⟩) :
    action.id ≠ id ∧ index.calls[id]? = some ⟨call, .found address⟩ ∨
      (action = .load id ∨ action = .loadOrStore id) ∧ later.m.lookup call.key = some address := by
  cases taken with
  | invoked =>
    rcases (turned_concat index.calls _).cases here with ⟨-, fresh⟩ | ⟨apart, here⟩
    · cases fresh
    · exact .inl ⟨apart.symm, here⟩
  | loaded at_ mapped =>
    rcases found_goto here with kept | ⟨rfl, same, old, stood⟩
    · exact .inl kept
    · cases same
      cases at_.symm.trans stood
      exact .inr ⟨.inl rfl, mapped⟩
  | shared at_ mapped =>
    rcases found_goto here with kept | ⟨rfl, same, old, stood⟩
    · exact .inl kept
    · cases same
      cases at_.symm.trans stood
      exact .inr ⟨.inr rfl, mapped⟩
  | stored at_ =>
    rcases found_goto here with kept | ⟨rfl, same, old, stood⟩
    · exact .inl kept
    · cases same
      cases at_.symm.trans stood
      exact .inr ⟨.inr rfl, lookup_insert index.m⟩
  | @absent _ other =>
    rcases found_goto here with kept | ⟨-, same, -⟩
    · exact .inl kept
    · cases other <;> cases same
  | entered _ _ _ visited =>
    cases visited <;> exact .inl ((found_goto here).resolve_right fun moved => by cases moved.2.1)
  | detached | responded => exact .inl ((found_goto here).resolve_right fun moved => by cases moved.2.1)

theorem removed_meanwhile (fresh : ∀ taken ∈ steps, Fresh taken.before taken.label)
    (here : final.calls[id]? = some ⟨call, .found address⟩) :
    ∃ before look meanwhile, steps = before ++ look :: meanwhile ∧
      (look.label = .load id ∨ look.label = .loadOrStore id) ∧ (∀ taken ∈ meanwhile, taken.label.id ≠ id) ∧
      ∀ bucket, final.buckets[address]? = some bucket → bucket.removed = true → bucket.lock = none →
        ∃ removal ∈ meanwhile, ∃ other, other ≠ id ∧ removal.label = .detach other := by
  induction run with
  | nil => cases here
  | @snoc steps index action later earlier taken ih =>
    obtain ⟨freshBefore, -⟩ := forall_mem_append.mp fresh
    have moved := steps_of_step taken
    rcases found_of_steps moved here with ⟨apart, waiting⟩ | ⟨looks, mapped⟩
    · obtain ⟨before, look, meanwhile, rfl, looks, others, removal⟩ := ih freshBefore waiting
      refine ⟨before, look, meanwhile ++ [⟨index, action, later⟩], by simp, looks, ?_, ?_⟩
      · exact forall_mem_append.mpr ⟨others, forall_mem_singleton.mpr apart⟩
      · intro bucket there removed free
        rcases unlocked_of_steps moved there removed free with ⟨bucket, there, removed, free⟩ | detaches
        · obtain ⟨taken, member, other⟩ := removal bucket there removed free
          exact ⟨taken, mem_append_left _ member, other⟩
        · exact ⟨_, mem_append_right _ (mem_singleton_self _), action.id, apart, detaches⟩
    · refine ⟨steps, ⟨index, action, later⟩, [], rfl, looks, by simp, fun bucket there removed free => ?_⟩
      obtain ⟨at_, located, -, locked⟩ := (sound_run (.snoc earlier taken) fresh).stored.mapped mapped
      cases there.symm.trans located
      rw [free] at locked
      cases locked removed

omit run in
theorem removed_of_retry (taken : Steps index (.enter id) later)
    (retries : later.calls[id]? = some ⟨call, .loading⟩) :
    ∃ address bucket, index.calls[id]? = some ⟨call, .found address⟩ ∧ index.buckets[address]? = some bucket ∧
      bucket.removed = true ∧ bucket.lock = none := by
  cases taken with
  | entered here there free visited =>
    cases visited with
    | retried removed =>
      obtain ⟨before, at_, same, -⟩ := calls_goto retries
      cases here.symm.trans at_
      cases same
      exact ⟨_, _, here, there, removed, free⟩
    | _ =>
      obtain ⟨_, _, _, phased⟩ := calls_goto retries
      rw [if_pos rfl] at phased
      cases phased

/-- The calls on a hash index are linearizable, and a call tries again only if another call has
removed a bucket since the call looked at the map. -/
theorem linearizable_to_set (fresh : ∀ taken ∈ steps, Fresh taken.before taken.label) :
    (∃ order, Linearization SetOfPairs ∅ (steps.filterMap (·.label.event)) order final.pairs) ∧
    ∀ earlier retry rest id call, steps = earlier ++ retry :: rest → retry.label = .enter id →
      retry.after.calls[id]? = some ⟨call, .loading⟩ →
      ∃ before look meanwhile, earlier = before ++ look :: meanwhile ∧
        (look.label = .load id ∨ look.label = .loadOrStore id) ∧ (∀ taken ∈ meanwhile, taken.label.id ≠ id) ∧
        ∃ removal ∈ meanwhile, ∃ other, other ≠ id ∧ removal.label = .detach other := by
  obtain ⟨order, explained⟩ := explains_run run fresh
  refine ⟨⟨order, explained.linear⟩, ?_⟩
  rintro earlier ⟨before, label, after⟩ rest id call rfl enters retries
  rw [← singleton_append, ← append_assoc] at run fresh
  obtain ⟨middle, run, -⟩ := run.split
  obtain ⟨prior, taken, rfl⟩ := run.last
  cases enters
  obtain ⟨address, bucket, here, there, removed, free⟩ := removed_of_retry (steps_of_step taken) retries
  obtain ⟨before, look, meanwhile, split, looks, others, removal⟩ :=
    removed_meanwhile prior (forall_mem_append.mp (forall_mem_append.mp fresh).1).1 here
  exact ⟨before, look, meanwhile, split, looks, others, removal bucket there removed free⟩

end

theorem fresh_of_other (other : ∀ id, action ≠ .enter id) : Fresh index action :=
  fun id _ _ _ _ enters => absurd enters (other id)

/-- One insertion makes the bucket of a key, a second one finds it, and a deletion removes it: the
second insertion tries again. -/
theorem insertion_tries_again : ∃ metadata steps final, Run Stepped (new metadata) steps final ∧
    final.calls[1]? = some ⟨.insertEntry (replicate 8 0) ⟨⟨1, 0⟩, 1⟩, .loading⟩ ∧
    ∃ order, Linearization SetOfPairs ∅ (steps.filterMap (·.label.event)) order final.pairs := by
  let key : Key := replicate 8 0
  let metadata : IndexMetadata := .oneInt
  have made := (@Run.nil _ _ Stepped (new metadata)).extend (.invoke 0 (.insertEntry key ⟨⟨1, 0⟩, 0⟩)) rfl
  have looked := made.extend (.load 0) rfl
  have stored := looked.extend (.loadOrStore 0) rfl
  have inserted := stored.extend (.enter 0) rfl
  have second := inserted.extend (.invoke 1 (.insertEntry key ⟨⟨1, 0⟩, 1⟩)) rfl
  have finds := second.extend (.load 1) rfl
  have third := finds.extend (.invoke 2 (.deleteEntry key ⟨⟨1, 0⟩, 0⟩)) rfl
  have deletes := third.extend (.load 2) rfl
  have emptied := deletes.extend (.enter 2) rfl
  have detached := emptied.extend (.detach 2) rfl
  have run := detached.extend (.enter 1) rfl
  refine ⟨metadata, _, _, run, rfl, (linearizable_to_set run ?_).1⟩
  simp only [nil_append, cons_append, forall_mem_cons]
  refine ⟨fresh_of_other (by simp), fresh_of_other (by simp), fresh_of_other (by simp), ?_, fresh_of_other (by simp),
    fresh_of_other (by simp), fresh_of_other (by simp), fresh_of_other (by simp), ?_, fresh_of_other (by simp), ?_, by simp⟩
  · rintro _ _ _ _ _ ⟨⟩ ⟨⟩ - - ⟨_, _, ⟨⟩, ⟨⟩, listed⟩
    cases listed
  · rintro _ _ _ _ _ ⟨⟩ ⟨⟩
  · rintro _ _ _ _ _ ⟨⟩ ⟨⟩ ⟨⟩ ⟨⟩

end SharedHashIndex
end GoDB.Indexing
