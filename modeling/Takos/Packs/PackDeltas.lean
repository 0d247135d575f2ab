import Takos.Packs.PackFormat

/-!
# Resolving deltas in file order

`Denotes` says which object an entry of a pack stands for, however the entries
are ordered.  The second pass finds it for every entry exactly when each delta
that names its base by id finds that base among the whole objects, the earlier
entries or the objects from outside.
-/

namespace Takos.Packs

open Takos.Foundation Takos.Foundation.Deflate Takos.Git

section

variable (digest : List UInt8 → List UInt8)
variable (resolveExternalBase : Option (Text → Option (List UInt8)))

def Supplied (sha : Text) (object : ResolvedObject) : Prop :=
  ∃ fetchBase, resolveExternalBase = some fetchBase ∧
    fetchBase sha = some object.content ∧
    hashObject digest object.type object.content = sha

/-- The object of an entry: itself, or what its delta makes of its base. -/
inductive Denotes (entries : List PackedEntry) : Nat → ResolvedObject → Prop where
  | whole {index : Nat} {entry : PackedEntry} {type : GitObjectType}
      (found : entries[index]? = some entry) (base : entry.base = .whole type) :
      Denotes entries index ⟨type, entry.payload⟩
  | offset {index baseIndex position : Nat} {entry baseEntry : PackedEntry}
      {object : ResolvedObject} {content : List UInt8}
      (found : entries[index]? = some entry)
      (base : entry.base = .offset position)
      (baseFound : entries[baseIndex]? = some baseEntry)
      (start : baseEntry.start = position)
      (inner : Denotes entries baseIndex object)
      (applied : applyDelta object.content entry.payload = .ok content) :
      Denotes entries index ⟨object.type, content⟩
  | within {index baseIndex : Nat} {id : List UInt8} {entry : PackedEntry}
      {object : ResolvedObject} {content : List UInt8}
      (found : entries[index]? = some entry) (base : entry.base = .object id)
      (inner : Denotes entries baseIndex object)
      (hash : hashObject digest object.type object.content = bytesToHex id)
      (applied : applyDelta object.content entry.payload = .ok content) :
      Denotes entries index ⟨object.type, content⟩
  | outside {index : Nat} {id : List UInt8} {entry : PackedEntry}
      {object : ResolvedObject} {content : List UInt8}
      (found : entries[index]? = some entry) (base : entry.base = .object id)
      (supplied : Supplied digest resolveExternalBase (bytesToHex id) object)
      (applied : applyDelta object.content entry.payload = .ok content) :
      Denotes entries index ⟨object.type, content⟩

/-- An object of the pack or one that the resolver supplies. -/
def Known (entries : List PackedEntry) (object : ResolvedObject) : Prop :=
  (∃ index, Denotes digest resolveExternalBase entries index object) ∨
    ∃ sha, Supplied digest resolveExternalBase sha object

/-- No two of these objects share their id. -/
def CollisionFree (entries : List PackedEntry) : Prop :=
  ∀ first second, Known digest resolveExternalBase entries first →
    Known digest resolveExternalBase entries second →
    hashObject digest first.type first.content =
      hashObject digest second.type second.content → first = second

def IsWhole (entries : List PackedEntry) (index : Nat) : Prop :=
  ∃ entry type, entries[index]? = some entry ∧ entry.base = .whole type

/-- The base that an entry names by id is supplied from outside, a whole object
of the pack, or the object of an earlier entry. -/
def BaseAtHand (entries : List PackedEntry) (index : Nat) : Prop :=
  ∀ entry id, entries[index]? = some entry → entry.base = .object id →
    (∃ object, Supplied digest resolveExternalBase (bytesToHex id) object) ∨
    ∃ baseIndex object,
      Denotes digest resolveExternalBase entries baseIndex object ∧
      hashObject digest object.type object.content = bytesToHex id ∧
      (baseIndex < index ∨ IsWhole entries baseIndex)

def unpacked (object : ResolvedObject) : UnpackedObject :=
  ⟨object.type, object.content, hashObject digest object.type object.content⟩

end

section

variable {digest : List UInt8 → List UInt8}
variable {resolveExternalBase : Option (Text → Option (List UInt8))}
variable {entries : List PackedEntry}

/-- Entries begin in order, and offsets point back. -/
structure Placed (entries : List PackedEntry) : Prop where
  ordered : entries.Pairwise fun first second => first.start < second.start
  back : ∀ entry ∈ entries, ∀ position, entry.base = .offset position →
    position < entry.start

theorem Placed.of_format {pack : List UInt8} (format : PackFormat pack entries) :
    Placed entries := by
  obtain ⟨body, trailer, _, _, encoded, _⟩ := format.parts
  exact ⟨encoded.start_le.2, encoded.offset_lt⟩

theorem Placed.lt_of_start_lt (placed : Placed entries) {first second : Nat}
    {firstEntry secondEntry : PackedEntry}
    (firstFound : entries[first]? = some firstEntry)
    (secondFound : entries[second]? = some secondEntry)
    (before : firstEntry.start < secondEntry.start) : first < second := by
  obtain ⟨firstBound, rfl⟩ := List.getElem?_eq_some_iff.mp firstFound
  obtain ⟨secondBound, rfl⟩ := List.getElem?_eq_some_iff.mp secondFound
  rcases Nat.lt_trichotomy first second with less | same | more
  · exact less
  · subst same
    exact absurd before (Nat.lt_irrefl _)
  · have := List.pairwise_iff_getElem.mp placed.ordered second first secondBound
      firstBound more
    omega

theorem Placed.eq_of_start_eq (placed : Placed entries) {first second : Nat}
    {firstEntry secondEntry : PackedEntry}
    (firstFound : entries[first]? = some firstEntry)
    (secondFound : entries[second]? = some secondEntry)
    (same : firstEntry.start = secondEntry.start) : first = second := by
  obtain ⟨firstBound, rfl⟩ := List.getElem?_eq_some_iff.mp firstFound
  obtain ⟨secondBound, rfl⟩ := List.getElem?_eq_some_iff.mp secondFound
  have apart := List.pairwise_iff_getElem.mp placed.ordered
  rcases Nat.lt_trichotomy first second with less | equal | more
  · exact absurd same (Nat.ne_of_lt (apart _ _ firstBound secondBound less))
  · exact equal
  · exact absurd same (Nat.ne_of_gt (apart _ _ secondBound firstBound more))

theorem base_unique
    (collisionFree : CollisionFree digest resolveExternalBase entries)
    {first second : ResolvedObject} {sha : Text}
    (firstKnown : Known digest resolveExternalBase entries first)
    (secondKnown : Known digest resolveExternalBase entries second)
    (firstHash : hashObject digest first.type first.content = sha)
    (secondHash : hashObject digest second.type second.content = sha) :
    first = second :=
  collisionFree first second firstKnown secondKnown
    (firstHash.trans secondHash.symm)

variable {object : ResolvedObject} {entry : PackedEntry}
  {result : ResolvedObject} {index : Nat} {state : ResolveState}
  {parsed : List PackEntry} {byOffset : OrderedMap Int Nat}

theorem Supplied.hash {sha : Text}
    (supplied : Supplied digest resolveExternalBase sha object) :
    hashObject digest object.type object.content = sha := by
  obtain ⟨_, _, _, hash⟩ := supplied
  exact hash

variable (digest resolveExternalBase entries) in
def Makes (entry : PackedEntry) (result : ResolvedObject) : Prop :=
  match entry.base with
  | .whole type => result = ⟨type, entry.payload⟩
  | .offset position =>
    ∃ baseIndex baseEntry object content,
      entries[baseIndex]? = some baseEntry ∧ baseEntry.start = position ∧
      Denotes digest resolveExternalBase entries baseIndex object ∧
      applyDelta object.content entry.payload = .ok content ∧
      result = ⟨object.type, content⟩
  | .object id =>
    ∃ object content, Known digest resolveExternalBase entries object ∧
      hashObject digest object.type object.content = bytesToHex id ∧
      applyDelta object.content entry.payload = .ok content ∧
      result = ⟨object.type, content⟩

theorem Denotes.makes
    (denotes : Denotes digest resolveExternalBase entries index result)
    (found : entries[index]? = some entry) :
    Makes digest resolveExternalBase entries entry result := by
  cases denotes with
  | whole found' base =>
      obtain rfl := Option.some.inj (found.symm.trans found')
      simp only [Makes, base]
  | offset found' base baseFound start inner applied =>
      obtain rfl := Option.some.inj (found.symm.trans found')
      simp only [Makes, base]
      exact ⟨_, _, _, _, baseFound, start, inner, applied, rfl⟩
  | within found' base inner hash applied =>
      obtain rfl := Option.some.inj (found.symm.trans found')
      simp only [Makes, base]
      exact ⟨_, _, Or.inl ⟨_, inner⟩, hash, applied, rfl⟩
  | outside found' base supplied applied =>
      obtain rfl := Option.some.inj (found.symm.trans found')
      simp only [Makes, base]
      exact ⟨_, _, Or.inr ⟨_, supplied⟩, supplied.hash, applied, rfl⟩

theorem Denotes.of_object {id : List UInt8}
    (denotes : Denotes digest resolveExternalBase entries index result)
    (found : entries[index]? = some entry) (base : entry.base = .object id) :
    ∃ object content, Known digest resolveExternalBase entries object ∧
      hashObject digest object.type object.content = bytesToHex id ∧
      applyDelta object.content entry.payload = .ok content ∧
      result = ⟨object.type, content⟩ := by
  have makes := denotes.makes found
  simpa only [Makes, base] using makes

theorem Denotes.unique (placed : Placed entries)
    (collisionFree : CollisionFree digest resolveExternalBase entries)
    {first second : ResolvedObject}
    (left : Denotes digest resolveExternalBase entries index first)
    (right : Denotes digest resolveExternalBase entries index second) :
    first = second := by
  induction left generalizing second with
  | whole found base =>
      have makes := right.makes found
      simp only [Makes, base] at makes
      exact makes.symm
  | offset found base baseFound start inner applied ih =>
      have makes := right.makes found
      simp only [Makes, base] at makes
      obtain ⟨_, _, object, content, baseFound', start', inner', applied',
        rfl⟩ := makes
      obtain rfl := placed.eq_of_start_eq baseFound baseFound'
        (start.trans start'.symm)
      obtain rfl := ih inner'
      rw [applied] at applied'
      cases applied'
      rfl
  | within found base inner hash applied ih =>
      obtain ⟨object, content, known, hash', applied', rfl⟩ :=
        right.of_object found base
      obtain rfl := base_unique collisionFree (Or.inl ⟨_, inner⟩) known hash
        hash'
      rw [applied] at applied'
      cases applied'
      rfl
  | outside found base supplied applied =>
      obtain ⟨object, content, known, hash', applied', rfl⟩ :=
        right.of_object found base
      obtain rfl := base_unique collisionFree (Or.inr ⟨_, supplied⟩) known
        supplied.hash hash'
      rw [applied] at applied'
      cases applied'
      rfl

variable (digest resolveExternalBase entries) in
/-- Before entry `index` is visited: earlier entries are resolved, later ones
only if they are whole, and all of them are indexed by their ids. -/
structure Progress (index : Nat) (state : ResolveState) : Prop where
  size : state.resolved.length = entries.length
  sound : ∀ place object, state.resolved.getD place none = some object →
    Denotes digest resolveExternalBase entries place object
  earlier : ∀ place, place < index → place < entries.length →
    ∃ object, state.resolved.getD place none = some object
  ahead : ∀ place object, index ≤ place →
    state.resolved.getD place none = some object → IsWhole entries place
  indexed : ∀ sha place, state.shaToIndex.get? sha = some place →
    ∃ object, Denotes digest resolveExternalBase entries place object ∧
      hashObject digest object.type object.content = sha ∧
      (place < index ∨ IsWhole entries place)
  ids : ∀ place object,
    Denotes digest resolveExternalBase entries place object →
    place < index ∨ IsWhole entries place →
    ∃ other, state.shaToIndex.get?
      (hashObject digest object.type object.content) = some other
  cached : ∀ sha object, state.externalCache.get? sha = some object →
    Supplied digest resolveExternalBase sha object

/-- Only the entry at `index`, if any, is marked as being resolved. -/
def MarksOnly (index : Nat) (state : ResolveState) : Prop :=
  ∀ place, place ≠ index → state.resolving.getD place false = false

def Unmarked (state : ResolveState) : Prop :=
  ∀ place, state.resolving.getD place false = false

theorem addSha_get? (shaToIndex : OrderedMap Text Nat) (sha other : Text)
    (index : Nat) :
    (addSha shaToIndex sha index).get? other =
      if shaToIndex.get? sha = none ∧ sha = other then some index
      else shaToIndex.get? other := by
  cases found : shaToIndex.get? sha with
  | some place => simp [addSha, found]
  | none =>
      rw [addSha, found]
      simp only [true_and, OrderedMap.get?_set, eq_comm]

theorem addSha_kept {shaToIndex : OrderedMap Text Nat} {other : Text}
    {place : Nat} (kept : shaToIndex.get? other = some place) (sha : Text)
    (index : Nat) : (addSha shaToIndex sha index).get? other = some place := by
  rw [addSha_get?, if_neg, kept]
  rintro ⟨absent, rfl⟩
  rw [absent] at kept
  cases kept

theorem addSha_self (shaToIndex : OrderedMap Text Nat) (sha : Text)
    (index : Nat) : ∃ place, (addSha shaToIndex sha index).get? sha =
      some place := by
  cases found : shaToIndex.get? sha with
  | some place => exact ⟨place, addSha_kept found sha index⟩
  | none =>
      refine ⟨index, ?_⟩
      rw [addSha_get?, if_pos ⟨found, rfl⟩]

theorem getD_set_self {Value : Type} {values : List Value} {place : Nat}
    (inside : place < values.length) (value fallback : Value) :
    (values.set place value).getD place fallback = value := by
  simp [inside]

theorem getD_set_false (values : List Bool) (place : Nat) :
    (values.set place false).getD place false = false := by
  by_cases inside : place < values.length
  · exact getD_set_self inside _ _
  · rw [List.getD_eq_default _ _ (by
      rw [List.length_set]
      exact Nat.not_lt.mp inside)]

theorem getD_set_ne {Value : Type} (values : List Value) {place other : Nat}
    (apart : place ≠ other) (value fallback : Value) :
    (values.set place value).getD other fallback =
      values.getD other fallback := by
  simp [apart]

theorem Progress.mark
    (progress : Progress digest resolveExternalBase entries index state)
    (resolving : List Bool) :
    Progress digest resolveExternalBase entries index
      { state with resolving := resolving } :=
  ⟨progress.size, progress.sound, progress.earlier, progress.ahead,
    progress.indexed, progress.ids, progress.cached⟩

theorem Progress.pass {known : ResolvedObject}
    (progress : Progress digest resolveExternalBase entries index state)
    (whole : IsWhole entries index)
    (resolved : state.resolved.getD index none = some known) :
    Progress digest resolveExternalBase entries (index + 1) state := by
  have covered : ∀ other, other < index + 1 ∨ IsWhole entries other →
      other < index ∨ IsWhole entries other := by
    intro other able
    rcases able with before | otherWhole
    · rcases Nat.lt_succ_iff_lt_or_eq.mp before with earlier | rfl
      · exact Or.inl earlier
      · exact Or.inr whole
    · exact Or.inr otherWhole
  refine ⟨progress.size, progress.sound, ?_, ?_, ?_, ?_, progress.cached⟩
  · intro other before bound
    rcases Nat.lt_succ_iff_lt_or_eq.mp before with earlier | rfl
    · exact progress.earlier other earlier bound
    · exact ⟨known, resolved⟩
  · exact fun other result after => progress.ahead other result (by omega)
  · intro sha other present
    obtain ⟨result, resultDenotes, hash, able⟩ :=
      progress.indexed sha other present
    exact ⟨result, resultDenotes, hash, able.imp_left (by omega)⟩
  · exact fun other result resultDenotes able =>
      progress.ids other result resultDenotes (covered other able)

theorem Progress.record {index place : Nat} (placed : Placed entries)
    (collisionFree : CollisionFree digest resolveExternalBase entries)
    (progress : Progress digest resolveExternalBase entries index state)
    (inside : place < entries.length)
    (denotes : Denotes digest resolveExternalBase entries place object)
    {reached : Nat} (further : index ≤ reached)
    (only : ∀ other, other < reached → other < index ∨ other = place)
    (allowed : place < reached ∨ IsWhole entries place) :
    Progress digest resolveExternalBase entries reached
      (recordResult digest place object state) := by
  have room : place < state.resolved.length := by rw [progress.size]; exact inside
  have weaker : ∀ other, other < index ∨ IsWhole entries other →
      other < reached ∨ IsWhole entries other := by
    intro other allowed
    rcases allowed with before | whole
    · exact Or.inl (Nat.lt_of_lt_of_le before further)
    · exact Or.inr whole
  refine ⟨?_, ?_, ?_, ?_, ?_, ?_, progress.cached⟩
  · simp only [recordResult, List.length_set]
    exact progress.size
  · intro other result found
    by_cases same : place = other
    · subst same
      simp only [recordResult, getD_set_self room] at found
      obtain rfl := Option.some.inj found
      exact denotes
    · simp only [recordResult, getD_set_ne _ same] at found
      exact progress.sound other result found
  · intro other before bound
    by_cases same : place = other
    · subst same
      exact ⟨object, by simp only [recordResult, getD_set_self room]⟩
    · simp only [recordResult, getD_set_ne _ same]
      rcases only other before with earlier | equal
      · exact progress.earlier other earlier bound
      · exact absurd equal.symm same
  · intro other result after found
    by_cases same : place = other
    · subst same
      rcases allowed with before | whole
      · omega
      · exact whole
    · simp only [recordResult, getD_set_ne _ same] at found
      exact progress.ahead other result (by omega) found
  · intro sha other found
    simp only [recordResult, addSha_get?] at found
    split at found
    · next fresh =>
      obtain rfl := Option.some.inj found
      exact ⟨object, denotes, fresh.2, allowed⟩
    · obtain ⟨result, resultDenotes, hash, able⟩ :=
        progress.indexed sha other found
      exact ⟨result, resultDenotes, hash, weaker other able⟩
  · intro other result resultDenotes able
    by_cases known : other < index ∨ IsWhole entries other
    · obtain ⟨first, found⟩ := progress.ids other result resultDenotes known
      exact ⟨first, addSha_kept found _ _⟩
    · have equal : other = place := by
        rcases able with before | whole
        · rcases only other before with earlier | equal
          · exact absurd (Or.inl earlier) known
          · exact equal
        · exact absurd (Or.inr whole) known
      subst equal
      obtain rfl := resultDenotes.unique placed collisionFree denotes
      exact addSha_self _ _ _

theorem baseTypeByNumber_number (base : PackedBase) :
    baseTypeByNumber base.number =
      match base with
      | .whole type => some type
      | _ => none := by
  cases base with
  | whole type => exact baseTypeByNumber_gitTypeToNumber type
  | offset | object => rfl

theorem Denotes.whole_eq {type : GitObjectType}
    (denotes : Denotes digest resolveExternalBase entries index result)
    (found : entries[index]? = some entry) (base : entry.base = .whole type) :
    result = ⟨type, entry.payload⟩ := by
  have makes := denotes.makes found
  simpa only [Makes, base] using makes

variable (digest) in
/-- The ids of the whole objects among the first `count` entries. -/
structure WholeIds (entries : List PackedEntry) (count : Nat)
    (shaToIndex : OrderedMap Text Nat) : Prop where
  sound : ∀ sha place, shaToIndex.get? sha = some place →
    ∃ entry type, entries[place]? = some entry ∧ entry.base = .whole type ∧
      hashObject digest type entry.payload = sha
  complete : ∀ place entry type, place < count →
    entries[place]? = some entry → entry.base = .whole type →
    ∃ other, shaToIndex.get? (hashObject digest type entry.payload) = some other

theorem indexBases_spec (rest : List PackedEntry) {done : List PackedEntry}
    (split : entries = done ++ rest) {shaToIndex : OrderedMap Text Nat}
    (ids : WholeIds digest entries done.length shaToIndex) :
    WholeIds digest entries entries.length
      (indexBases digest shaToIndex done.length
        (rest.map PackedEntry.parsed)) := by
  induction rest generalizing done shaToIndex with
  | nil =>
      rw [List.append_nil] at split
      rw [split] at ids ⊢
      exact ids
  | cons entry rest ih =>
      have further : entries = (done ++ [entry]) ++ rest := by simpa using split
      have size : (done ++ [entry]).length = done.length + 1 := by simp
      have here : entries[done.length]? = some entry := by
        rw [split, List.getElem?_append_right (Nat.le_refl _), Nat.sub_self]
        rfl
      have ofNext : ∀ {map : OrderedMap Text Nat},
          (∀ sha place, map.get? sha = some place →
            ∃ entry type, entries[place]? = some entry ∧
              entry.base = .whole type ∧
              hashObject digest type entry.payload = sha) →
          (∀ sha place, shaToIndex.get? sha = some place →
            map.get? sha = some place) →
          (∀ type, entry.base = .whole type → ∃ other,
            map.get? (hashObject digest type entry.payload) = some other) →
          WholeIds digest entries (done ++ [entry]).length map := by
        intro map sound kept newest
        refine ⟨sound, ?_⟩
        intro place other type before found base
        rw [size] at before
        rcases Nat.lt_succ_iff_lt_or_eq.mp before with earlier | equal
        · obtain ⟨first, present⟩ :=
            ids.complete place other type earlier found base
          exact ⟨first, kept _ _ present⟩
        · rw [equal, here] at found
          obtain rfl := Option.some.inj found
          exact newest type base
      rw [List.map_cons, indexBases]
      have number : entry.parsed.typeNum = entry.base.number := rfl
      rw [number, baseTypeByNumber_number, ← size]
      cases base : entry.base with
      | whole type =>
          apply ih further
          apply ofNext
          · intro sha place found
            rw [addSha_get?] at found
            split at found
            · next fresh =>
              obtain rfl := Option.some.inj found
              exact ⟨entry, type, here, base, fresh.2⟩
            · exact ids.sound sha place found
          · exact fun sha place found => addSha_kept found _ _
          · intro type' base'
            rw [base] at base'
            cases base'
            exact addSha_self _ _ _
      | offset position =>
          apply ih further
          apply ofNext ids.sound (fun _ _ found => found)
          intro type base'
          rw [base] at base'
          cases base'
      | object id =>
          apply ih further
          apply ofNext ids.sound (fun _ _ found => found)
          intro type base'
          rw [base] at base'
          cases base'

theorem startState_progress :
    Progress digest resolveExternalBase entries 0
      (startState digest (entries.map PackedEntry.parsed)) := by
  have blank : ∀ place, (List.replicate entries.length
      (none : Option ResolvedObject)).getD place none = none := by
    intro place
    rw [List.getD_eq_getElem?_getD, List.getElem?_replicate]
    split <;> rfl
  have ids : WholeIds digest entries entries.length
      (indexBases digest .empty 0 (entries.map PackedEntry.parsed)) :=
    @indexBases_spec digest entries entries [] rfl .empty
      ⟨fun sha place found => by simp at found,
        fun place _ _ before => absurd before (Nat.not_lt_zero _)⟩
  refine ⟨?_, ?_, ?_, ?_, ?_, ?_, ?_⟩
  · simp only [startState, List.length_replicate, List.length_map]
  · intro place object found
    simp only [startState, List.length_map, blank] at found
    cases found
  · exact fun place before => absurd before (Nat.not_lt_zero _)
  · intro place object _ found
    simp only [startState, List.length_map, blank] at found
    cases found
  · intro sha place found
    obtain ⟨entry, type, inside, base, hash⟩ := ids.sound sha place found
    exact ⟨⟨type, entry.payload⟩, .whole inside base, hash,
      Or.inr ⟨entry, type, inside, base⟩⟩
  · intro place object denotes able
    rcases able with before | ⟨entry, type, inside, base⟩
    · exact absurd before (Nat.not_lt_zero _)
    · obtain rfl := denotes.whole_eq inside base
      exact ids.complete place entry type
        (List.getElem?_eq_some_iff.mp inside).1 inside base
  · intro sha object found
    simp [startState] at found

theorem resolveEntry_memo (calls : Nat)
    (found : state.resolved.getD index none = some object) :
    resolveEntry digest resolveExternalBase parsed byOffset (calls + 1) index
      state = .ok (object, state) := by
  simp only [resolveEntry, found]

theorem parsed_getElem? (found : entries[index]? = some entry) :
    (entries.map PackedEntry.parsed)[index]? = some entry.parsed := by
  rw [List.getElem?_map, found, Option.map_some]

theorem resolveEntry_ready (placed : Placed entries)
    (collisionFree : CollisionFree digest resolveExternalBase entries)
    {index place : Nat}
    (progress : Progress digest resolveExternalBase entries index state)
    (marks : MarksOnly index state) (apart : place ≠ index)
    (denotes : Denotes digest resolveExternalBase entries place object)
    (able : place < index ∨ IsWhole entries place) (calls : Nat)
    (inside : place < entries.length) :
    ∃ state', resolveEntry digest resolveExternalBase
        (entries.map PackedEntry.parsed) byOffset (calls + 1) place state =
          .ok (object, state') ∧
      Progress digest resolveExternalBase entries index state' ∧
      MarksOnly index state' := by
  cases resolved : state.resolved.getD place none with
  | some known =>
      obtain rfl := (progress.sound place known resolved).unique placed
        collisionFree denotes
      exact ⟨state, resolveEntry_memo calls resolved, progress, marks⟩
  | none =>
      have whole : IsWhole entries place := by
        rcases able with before | whole
        · obtain ⟨known, found⟩ := progress.earlier place before inside
          rw [resolved] at found
          cases found
        · exact whole
      obtain ⟨entry, type, found, base⟩ := whole
      obtain rfl := denotes.whole_eq found base
      have wholeType : baseTypeByNumber entry.parsed.typeNum = some type := by
        show baseTypeByNumber entry.base.number = some type
        rw [base]
        exact baseTypeByNumber_gitTypeToNumber type
      have ran := @resolveEntry_whole digest _ resolveExternalBase byOffset
        place _ type state calls (parsed_getElem? found) wholeType resolved
        (marks place apart)
      refine ⟨_, ran, ?_, ?_⟩
      · exact (progress.mark _).record placed collisionFree inside denotes
          (Nat.le_refl _) (fun other before => Or.inl before)
          (Or.inr ⟨entry, type, found, base⟩)
      · intro other different
        simp only [recordResult]
        by_cases same : place = other
        · subst same
          exact getD_set_false _ _
        · rw [getD_set_ne _ same, getD_set_ne _ same]
          exact marks other different

theorem typeOfExternalBase_spec {content : List UInt8} {sha : Text} :
    (∃ type, typeOfExternalBase digest content sha = .ok type ∧
      hashObject digest type content = sha) ∨
    (typeOfExternalBase digest content sha = .error (.externalMismatch sha) ∧
      ∀ type, hashObject digest type content ≠ sha) := by
  cases search : ALL_TYPES.find? fun type =>
      hashObject digest type content = sha with
  | some type =>
      left
      have hit := List.find?_some search
      exact ⟨type, by rw [typeOfExternalBase, search],
        of_decide_eq_true hit⟩
  | none =>
      right
      refine ⟨by rw [typeOfExternalBase, search], fun type => ?_⟩
      have missed := List.find?_eq_none.mp search type
        (by cases type <;> decide)
      simpa using missed

/-- The resolver is asked at most once for an id, and either supplies it or the
reader fails. -/
theorem resolveExternal_spec {sha : Text} {state : ResolveState}
    (cached : ∀ sha object, state.externalCache.get? sha = some object →
      Supplied digest resolveExternalBase sha object) :
    (∃ object cache,
      resolveExternal digest resolveExternalBase sha state =
        .ok (object, { state with externalCache := cache }) ∧
      Supplied digest resolveExternalBase sha object ∧
      ∀ sha object, cache.get? sha = some object →
        Supplied digest resolveExternalBase sha object) ∨
    ((∃ error, resolveExternal digest resolveExternalBase sha state =
        .error error) ∧
      ∀ object, ¬ Supplied digest resolveExternalBase sha object) := by
  cases known : state.externalCache.get? sha with
  | some object =>
      left
      refine ⟨object, state.externalCache, ?_, cached sha object known, cached⟩
      simp only [resolveExternal, known]
  | none =>
      cases resolver : resolveExternalBase with
      | none =>
          right
          subst resolver
          refine ⟨⟨.noResolver sha, by rw [resolveExternal, known]⟩, ?_⟩
          rintro object ⟨fetchBase, given, _⟩
          cases given
      | some fetchBase =>
          subst resolver
          cases fetched : fetchBase sha with
          | none =>
              right
              refine ⟨⟨.unresolvedBase sha, ?_⟩, ?_⟩
              · simp only [resolveExternal, known, fetched]
              · rintro object ⟨_, given, found, _⟩
                obtain rfl := Option.some.inj given
                rw [fetched] at found
                cases found
          | some content =>
              rcases @typeOfExternalBase_spec digest content sha with
                ⟨type, typed, hash⟩ | ⟨mismatch, differs⟩
              · left
                have supplied : Supplied digest (some fetchBase) sha
                    ⟨type, content⟩ := ⟨fetchBase, rfl, fetched, hash⟩
                refine ⟨⟨type, content⟩,
                  state.externalCache.set sha ⟨type, content⟩, ?_, supplied, ?_⟩
                · simp only [resolveExternal, known, fetched, typed, bind,
                    Except.bind]
                  rfl
                · intro other object found
                  rw [OrderedMap.get?_set] at found
                  split at found
                  · next same =>
                    obtain rfl := Option.some.inj found
                    rw [same]
                    exact supplied
                  · exact cached other object found
              · right
                refine ⟨⟨.externalMismatch sha, ?_⟩, ?_⟩
                · simp only [resolveExternal, known, fetched, mismatch, bind,
                    Except.bind]
                · rintro object ⟨_, given, found, hash⟩
                  obtain rfl := Option.some.inj given
                  rw [fetched] at found
                  obtain rfl := Option.some.inj found
                  exact differs _ hash

theorem Unmarked.mark (unmarked : Unmarked state) :
    MarksOnly index
      { state with resolving := state.resolving.set index true } := by
  intro place apart
  simp only [getD_set_ne _ apart.symm]
  exact unmarked place

theorem MarksOnly.record (marks : MarksOnly index state)
    (object : ResolvedObject) :
    Unmarked (recordResult digest index object state) := by
  intro place
  simp only [recordResult]
  by_cases same : index = place
  · subst same
    exact getD_set_false _ _
  · rw [getD_set_ne _ same]
    exact marks place (Ne.symm same)

theorem resolveEntry_delta {e : PackEntry} (calls : Nat)
    (found : parsed[index]? = some e)
    (delta : baseTypeByNumber e.typeNum = none)
    (unresolved : state.resolved.getD index none = none)
    (unmarked : state.resolving.getD index false = false) :
    resolveEntry digest resolveExternalBase parsed byOffset (calls + 1) index
        state =
      (do
        let (base, state') ← resolveBase digest resolveExternalBase byOffset
          (resolveEntry digest resolveExternalBase parsed byOffset calls) index
          e { state with resolving := state.resolving.set index true }
        let content ← applyDelta base.content e.payload
        return (⟨base.type, content⟩,
          recordResult digest index ⟨base.type, content⟩ state')) := by
  simp only [resolveEntry, unresolved, unmarked, found, delta,
    Bool.false_eq_true, if_false]

theorem baseAtHand_of_ne (found : entries[index]? = some entry)
    (other : ∀ id, entry.base ≠ .object id) :
    BaseAtHand digest resolveExternalBase entries index := by
  intro entry' id found' base
  obtain rfl := Option.some.inj (found.symm.trans found')
  exact absurd base (other id)

theorem baseAtHand_iff {id : List UInt8} (found : entries[index]? = some entry)
    (base : entry.base = .object id) :
    BaseAtHand digest resolveExternalBase entries index ↔
      (∃ object, Supplied digest resolveExternalBase (bytesToHex id) object) ∨
      ∃ baseIndex object,
        Denotes digest resolveExternalBase entries baseIndex object ∧
        hashObject digest object.type object.content = bytesToHex id ∧
        (baseIndex < index ∨ IsWhole entries baseIndex) := by
  constructor
  · intro atHand
    exact atHand entry id found base
  · intro hand entry' id' found' base'
    cases found.symm.trans found'
    cases base.symm.trans base'
    exact hand

theorem resolveBase_spec (placed : Placed entries)
    (collisionFree : CollisionFree digest resolveExternalBase entries)
    (offsets : OffsetsOf entries byOffset)
    (progress : Progress digest resolveExternalBase entries index state)
    (marks : MarksOnly index state) (found : entries[index]? = some entry)
    (delta : ¬ IsWhole entries index)
    (denotes : Denotes digest resolveExternalBase entries index object)
    {calls : Nat} (enough : entries.length = calls + 1) :
    (BaseAtHand digest resolveExternalBase entries index ∧
      ∃ base content state',
        resolveBase digest resolveExternalBase byOffset
          (resolveEntry digest resolveExternalBase
            (entries.map PackedEntry.parsed) byOffset calls) index entry.parsed
            state = .ok (base, state') ∧
        applyDelta base.content entry.payload = .ok content ∧
        object = ⟨base.type, content⟩ ∧
        Progress digest resolveExternalBase entries index state' ∧
        MarksOnly index state') ∨
    (¬ BaseAtHand digest resolveExternalBase entries index ∧
      ∃ error, resolveBase digest resolveExternalBase byOffset
        (resolveEntry digest resolveExternalBase
          (entries.map PackedEntry.parsed) byOffset calls) index entry.parsed
          state = .error error) := by
  have inside : index < entries.length :=
    (List.getElem?_eq_some_iff.mp found).1
  have makes := denotes.makes found
  cases base : entry.base with
  | whole type => exact absurd ⟨entry, type, found, base⟩ delta
  | offset position =>
      left
      simp only [Makes, base] at makes
      obtain ⟨baseIndex, baseEntry, baseObject, content, baseFound, start, inner,
        applied, objectEq⟩ := makes
      have before : baseIndex < index := by
        apply placed.lt_of_start_lt baseFound found
        rw [start]
        exact placed.back entry (List.mem_of_getElem? found) position base
      obtain ⟨fewer, rfl⟩ : ∃ fewer, calls = fewer + 1 :=
        Nat.exists_eq_succ_of_ne_zero (by omega)
      obtain ⟨state', ran, progress', marks'⟩ :=
        resolveEntry_ready placed collisionFree progress marks
          (Nat.ne_of_lt before) inner (Or.inl before) fewer (by omega)
      refine ⟨baseAtHand_of_ne found (by simp [base]), baseObject, content,
        state', ?_, applied, objectEq, progress', marks'⟩
      · have number : entry.parsed.typeNum = OBJ_OFS_DELTA := by
          show entry.base.number = _
          rw [base]
          rfl
        have target : entry.parsed.baseOffset = (baseEntry.start : Int) := by
          simp only [PackedEntry.parsed, base, start]
        rw [resolveBase, if_pos number, target,
          offsets.complete baseIndex baseEntry baseFound]
        exact ran
  | object id =>
      simp only [Makes, base] at makes
      obtain ⟨baseObject, content, known, hash, applied, objectEq⟩ := makes
      have number : ¬ entry.parsed.typeNum = OBJ_OFS_DELTA := by
        show ¬ entry.base.number = _
        rw [base]
        show ¬ OBJ_REF_DELTA = OBJ_OFS_DELTA
        decide
      have sha : entry.parsed.baseSha = bytesToHex id := by
        simp only [PackedEntry.parsed, base]
      cases indexed : state.shaToIndex.get? (bytesToHex id) with
      | some baseIndex =>
          left
          obtain ⟨other, inner, otherHash, able⟩ :=
            progress.indexed _ _ indexed
          obtain rfl := base_unique collisionFree (Or.inl ⟨_, inner⟩) known
            otherHash hash
          have apart : baseIndex ≠ index := by
            rcases able with before | whole
            · exact Nat.ne_of_lt before
            · rintro rfl
              exact delta whole
          have baseInside : baseIndex < entries.length := by
            rcases able with before | ⟨baseEntry, type, baseFound, _⟩
            · omega
            · exact (List.getElem?_eq_some_iff.mp baseFound).1
          obtain ⟨fewer, rfl⟩ : ∃ fewer, calls = fewer + 1 :=
            Nat.exists_eq_succ_of_ne_zero (by omega)
          obtain ⟨state', ran, progress', marks'⟩ :=
            resolveEntry_ready placed collisionFree progress marks apart inner
              able fewer baseInside
          refine ⟨(baseAtHand_iff found base).mpr
            (Or.inr ⟨baseIndex, other, inner, otherHash, able⟩),
            other, content, state', ?_, applied, objectEq, progress', marks'⟩
          rw [resolveBase, if_neg number, sha, indexed]
          simp only [if_pos apart]
          exact ran
      | none =>
          have reduced : resolveBase digest resolveExternalBase byOffset
              (resolveEntry digest resolveExternalBase
                (entries.map PackedEntry.parsed) byOffset calls) index
                entry.parsed state =
              resolveExternal digest resolveExternalBase (bytesToHex id)
                state := by
            rw [resolveBase, if_neg number, sha, indexed]
          rw [reduced]
          rcases @resolveExternal_spec digest resolveExternalBase
              (bytesToHex id) state progress.cached with
            ⟨other, cache, ran, supplied, cached⟩ | ⟨failed, missing⟩
          · left
            obtain rfl := base_unique collisionFree (Or.inr ⟨_, supplied⟩) known
              supplied.hash hash
            exact ⟨(baseAtHand_iff found base).mpr (Or.inl ⟨other, supplied⟩),
              other, content, _, ran, applied, objectEq,
              ⟨progress.size, progress.sound, progress.earlier, progress.ahead,
                progress.indexed, progress.ids, cached⟩, marks⟩
          · right
            refine ⟨?_, failed⟩
            rw [baseAtHand_iff found base]
            rintro (⟨other, supplied⟩ | ⟨baseIndex, other, inner, otherHash, able⟩)
            · exact missing other supplied
            · obtain ⟨place, present⟩ := progress.ids _ _ inner able
              rw [otherHash, indexed] at present
              cases present

/-- One round of the last loop: with the base at hand the entry is resolved and
the progress goes on, otherwise the reader fails. -/
theorem resolveEntry_step (placed : Placed entries)
    (collisionFree : CollisionFree digest resolveExternalBase entries)
    (offsets : OffsetsOf entries byOffset)
    (progress : Progress digest resolveExternalBase entries index state)
    (unmarked : Unmarked state)
    (denotes : Denotes digest resolveExternalBase entries index object)
    (inside : index < entries.length) :
    (BaseAtHand digest resolveExternalBase entries index ∧
      ∃ state', resolveEntry digest resolveExternalBase
          (entries.map PackedEntry.parsed) byOffset entries.length index state =
            .ok (object, state') ∧
        Progress digest resolveExternalBase entries (index + 1) state' ∧
        Unmarked state') ∨
    (¬ BaseAtHand digest resolveExternalBase entries index ∧
      ∃ error, resolveEntry digest resolveExternalBase
        (entries.map PackedEntry.parsed) byOffset entries.length index state =
          .error error) := by
  obtain ⟨calls, enough⟩ : ∃ calls, entries.length = calls + 1 :=
    Nat.exists_eq_succ_of_ne_zero (by omega)
  have found : entries[index]? = some entries[index] :=
    List.getElem?_eq_getElem inside
  have nextOnly : ∀ other, other < index + 1 → other < index ∨ other = index :=
    fun other before => Nat.lt_succ_iff_lt_or_eq.mp before
  by_cases whole : IsWhole entries index
  · left
    obtain ⟨entry, type, found', base⟩ := id whole
    refine ⟨baseAtHand_of_ne found' (by simp [base]), ?_⟩
    rw [enough]
    cases resolved : state.resolved.getD index none with
    | some known =>
        obtain rfl := (progress.sound index known resolved).unique placed
          collisionFree denotes
        exact ⟨state, resolveEntry_memo calls resolved,
          progress.pass whole resolved, unmarked⟩
    | none =>
        obtain rfl := denotes.whole_eq found' base
        have wholeType : baseTypeByNumber entry.parsed.typeNum = some type := by
          show baseTypeByNumber entry.base.number = some type
          rw [base]
          exact baseTypeByNumber_gitTypeToNumber type
        have ran := @resolveEntry_whole digest _ resolveExternalBase byOffset
          index _ type state calls (parsed_getElem? found') wholeType resolved
          (unmarked index)
        exact ⟨_, ran, (progress.mark _).record placed collisionFree inside
            denotes (Nat.le_succ _) nextOnly (Or.inl (Nat.lt_succ_self _)),
          unmarked.mark.record _⟩
  · have unresolved : state.resolved.getD index none = none := by
      cases resolved : state.resolved.getD index none with
      | none => rfl
      | some known =>
          exact absurd (progress.ahead index known (Nat.le_refl _) resolved)
            whole
    have delta : baseTypeByNumber entries[index].parsed.typeNum = none := by
      show baseTypeByNumber entries[index].base.number = none
      rw [baseTypeByNumber_number]
      cases base : entries[index].base with
      | whole type => exact absurd ⟨_, type, found, base⟩ whole
      | offset | object => rfl
    have round := @resolveEntry_delta digest resolveExternalBase index state _
      byOffset _ calls (parsed_getElem? found) delta unresolved (unmarked index)
    rw [enough, round]
    rcases resolveBase_spec placed collisionFree offsets
        (progress.mark (state.resolving.set index true)) unmarked.mark found
        whole denotes enough with
      ⟨atHand, base, content, state', based, applied, rfl, progress', marks⟩ |
        ⟨absent, error, failed⟩
    · left
      refine ⟨atHand, _, ?_, progress'.record placed collisionFree inside
        denotes (Nat.le_succ _) nextOnly (Or.inl (Nat.lt_succ_self _)),
        marks.record ⟨base.type, content⟩⟩
      have payload : entries[index].parsed.payload = entries[index].payload := rfl
      simp only [based, payload, applied, bind, Except.bind]
      rfl
    · right
      refine ⟨absent, error, ?_⟩
      simp only [failed, bind, Except.bind]

theorem resolveAll_spec (placed : Placed entries)
    (collisionFree : CollisionFree digest resolveExternalBase entries)
    (offsets : OffsetsOf entries byOffset)
    (denoted : ∀ index, index < entries.length →
      ∃ object, Denotes digest resolveExternalBase entries index object)
    (remaining : Nat) (total : index + remaining = entries.length)
    (progress : Progress digest resolveExternalBase entries index state)
    (unmarked : Unmarked state) :
    (∃ objects, resolveAll digest resolveExternalBase
          (entries.map PackedEntry.parsed) byOffset remaining index state =
            .ok objects ∧
        objects.length = remaining ∧
        (∀ place object,
          Denotes digest resolveExternalBase entries (index + place) object →
          objects[place]? = some (unpacked digest object)) ∧
        ∀ place, index ≤ place → place < entries.length →
          BaseAtHand digest resolveExternalBase entries place) ∨
    ((∃ error, resolveAll digest resolveExternalBase
        (entries.map PackedEntry.parsed) byOffset remaining index state =
          .error error) ∧
      ∃ place, place < entries.length ∧
        ¬ BaseAtHand digest resolveExternalBase entries place) := by
  induction remaining generalizing index state with
  | zero =>
      left
      refine ⟨[], rfl, rfl, ?_, ?_⟩
      · intro place object denotes
        have bound : index + place < entries.length := by
          cases denotes with
          | whole found => exact (List.getElem?_eq_some_iff.mp found).1
          | offset found => exact (List.getElem?_eq_some_iff.mp found).1
          | within found => exact (List.getElem?_eq_some_iff.mp found).1
          | outside found => exact (List.getElem?_eq_some_iff.mp found).1
        omega
      · intro place after before
        omega
  | succ remaining ih =>
      have inside : index < entries.length := by omega
      obtain ⟨object, denotes⟩ := denoted index inside
      rcases resolveEntry_step placed collisionFree offsets progress unmarked
          denotes inside with
        ⟨atHand, state', ran, progress', unmarked'⟩ | ⟨absent, error, failed⟩
      · rcases ih (by omega) progress' unmarked' with
          ⟨objects, rested, size, results, others⟩ | ⟨⟨error, failed⟩, missing⟩
        · left
          refine ⟨unpacked digest object :: objects, ?_, ?_, ?_, ?_⟩
          · simp only [resolveAll, List.length_map, ran, rested, bind,
              Except.bind]
            rfl
          · rw [List.length_cons, size]
          · intro place result resultDenotes
            cases place with
            | zero =>
                obtain rfl := resultDenotes.unique placed collisionFree denotes
                rfl
            | succ place =>
                apply results place result
                rwa [Nat.add_assoc, Nat.add_comm 1]
          · intro place after before
            rcases Nat.lt_or_eq_of_le after with later | rfl
            · exact others place later before
            · exact atHand
        · right
          refine ⟨⟨error, ?_⟩, missing⟩
          simp only [resolveAll, List.length_map, ran, failed, bind,
            Except.bind]
      · right
        refine ⟨⟨error, ?_⟩, index, inside, absent⟩
        simp only [resolveAll, List.length_map, failed, bind, Except.bind]

end

/-- For a pack whose entries all denote objects: the reader returns one object
for each entry, in file order, if and only if every base that is named by id is
at hand when its entry is reached. -/
theorem readPack_resolves_iff (digest : List UInt8 → List UInt8)
    (resolveExternalBase : Option (Text → Option (List UInt8)))
    {pack : List UInt8} {entries : List PackedEntry}
    (format : PackFormat pack entries)
    (denoted : ∀ index, index < entries.length →
      ∃ object, Denotes digest resolveExternalBase entries index object)
    (collisionFree : CollisionFree digest resolveExternalBase entries) :
    (∃ objects, readPack digest resolveExternalBase pack = .ok objects ∧
      objects.length = entries.length ∧
      ∀ index object,
        Denotes digest resolveExternalBase entries index object →
        objects[index]? = some (unpacked digest object)) ↔
    ∀ index, index < entries.length →
      BaseAtHand digest resolveExternalBase entries index := by
  obtain ⟨byOffset, offsets, secondPass⟩ :=
    readPack_of_format digest resolveExternalBase format
  have unmarked : Unmarked
      (startState digest (entries.map PackedEntry.parsed)) := by
    intro place
    simp only [startState, List.getD_eq_getElem?_getD, List.getElem?_replicate]
    split <;> rfl
  have outcome := resolveAll_spec (Placed.of_format format) collisionFree offsets
    denoted entries.length (Nat.zero_add _) startState_progress unmarked
  rw [← secondPass] at outcome
  rcases outcome with
    ⟨objects, ran, size, results, atHand⟩ | ⟨⟨error, failed⟩, place, inside,
      absent⟩
  · constructor
    · exact fun _ index inside => atHand index (Nat.zero_le _) inside
    · intro _
      refine ⟨objects, ran, size, fun index object denotes => ?_⟩
      apply results index object
      rwa [Nat.zero_add]
  · constructor
    · rintro ⟨objects, ran, _⟩
      rw [failed] at ran
      cases ran
    · intro atHand
      exact absurd (atHand place inside) absent

/-! ### A base that comes later

A blob, a delta against the object of the third entry, and that third entry, a
delta against the blob. -/

def shaA : List UInt8 :=
  [46, 101, 239, 226, 161, 69, 221, 167, 238, 81, 209, 116, 18, 153, 248, 72,
    229, 191, 117, 46]

def shaAB : List UInt8 :=
  [154, 233, 232, 107, 123, 214, 203, 20, 114, 217, 55, 55, 2, 216, 36, 153, 115,
    218, 8, 50]

def shaABC : List UInt8 :=
  [242, 186, 143, 132, 171, 92, 27, 206, 132, 167, 180, 65, 203, 25, 89, 207,
    199, 9, 59, 127]

/-- SHA-1 on the three blobs. -/
def blobDigest (data : List UInt8) : List UInt8 :=
  if data = objectBytes .blob [97] then shaA
  else if data = objectBytes .blob [97, 98] then shaAB
  else if data = objectBytes .blob [97, 98, 99] then shaABC
  else List.replicate 20 0

def appendB : List UInt8 := [1, 2, 0x90, 1, 1, 98]
def appendC : List UInt8 := [2, 3, 0x90, 2, 1, 99]

def lateEntries : List PackedEntry :=
  [⟨12, .whole .blob, [97]⟩, ⟨25, .object shaAB, appendC⟩,
    ⟨63, .object shaA, appendB⟩]

def latePack : List UInt8 :=
  [80, 65, 67, 75, 0, 0, 0, 2, 0, 0, 0, 3,
    0x31, 120, 1, 1, 1, 0, 254, 255, 97, 0, 98, 0, 98] ++
  (0x76 :: shaAB) ++
  [120, 1, 1, 6, 0, 249, 255, 2, 3, 144, 2, 1, 99, 2, 204, 0, 252] ++
  (0x76 :: shaA) ++
  [120, 1, 1, 6, 0, 249, 255, 1, 2, 144, 1, 1, 98, 2, 189, 0, 248] ++
  [198, 226, 78, 158, 203, 55, 50, 69, 117, 231, 180, 173, 22, 140, 191, 18,
    220, 127, 244, 180]

theorem zlibStream_stored {content : List UInt8} (short : content.length < 65536)
    {body : List UInt8}
    (bits : bitsOf body = true :: ([false, false] ++
      (List.replicate 5 false ++ (toBits 16 content.length ++
        (toBits 16 (65535 - content.length) ++ bitsOf content))))) :
    ZlibStream
      (120 :: 1 :: (body ++ bigEndian 4 (adler32 content))) content := by
  refine ⟨120, 1, body, rfl, by decide, by decide, by decide, by decide, ?_⟩
  have block : Block 1 [] ([false, false] ++
      (List.replicate 5 false ++ (toBits 16 content.length ++
        (toBits 16 (65535 - content.length) ++ bitsOf content))))
      ([] ++ content) := .stored (by decide) short
  rw [List.nil_append] at block
  exact ⟨_, [], .last block, by decide, by rw [List.append_nil, bits]⟩

theorem latePack_format : PackFormat latePack lateEntries := by
  have blob : EntryBytes ⟨12, .whole .blob, [97]⟩
      [0x31, 120, 1, 1, 1, 0, 254, 255, 97, 0, 98, 0, 98] :=
    ⟨[0x31], [], [120, 1, 1, 1, 0, 254, 255, 97, 0, 98, 0, 98], rfl, by decide,
      @EntryHeader.short 0x31 (by decide), .whole .blob,
      @zlibStream_stored [97] (by decide) [1, 1, 0, 254, 255, 97] (by decide)⟩
  have second : EntryBytes ⟨25, .object shaAB, appendC⟩
      ((0x76 :: shaAB) ++
        [120, 1, 1, 6, 0, 249, 255, 2, 3, 144, 2, 1, 99, 2, 204, 0, 252]) :=
    ⟨[0x76], shaAB, _, rfl, by decide, @EntryHeader.short 0x76 (by decide),
      .object rfl, @zlibStream_stored appendC (by decide)
        [1, 6, 0, 249, 255, 2, 3, 144, 2, 1, 99] (by decide)⟩
  have third : EntryBytes ⟨63, .object shaA, appendB⟩
      ((0x76 :: shaA) ++
        [120, 1, 1, 6, 0, 249, 255, 1, 2, 144, 1, 1, 98, 2, 189, 0, 248]) :=
    ⟨[0x76], shaA, _, rfl, by decide, @EntryHeader.short 0x76 (by decide),
      .object rfl, @zlibStream_stored appendB (by decide)
        [1, 6, 0, 249, 255, 1, 2, 144, 1, 1, 98] (by decide)⟩
  refine ⟨_, [198, 226, 78, 158, 203, 55, 50, 69, 117, 231, 180, 173, 22, 140,
    191, 18, 220, 127, 244, 180], ?_, by decide,
    .cons blob (.cons second (.cons third .nil)), rfl⟩
  rfl

section

variable {resolveExternalBase : Option (Text → Option (List UInt8))}

theorem lateEntries_denoted {index : Nat} (inside : index < lateEntries.length) :
    ∃ object, Denotes blobDigest resolveExternalBase lateEntries index object := by
  have first : Denotes blobDigest resolveExternalBase lateEntries 0
      ⟨.blob, [97]⟩ := @Denotes.whole _ _ lateEntries 0 _ .blob rfl rfl
  have third : Denotes blobDigest resolveExternalBase lateEntries 2
      ⟨.blob, [97, 98]⟩ :=
    @Denotes.within _ _ lateEntries 2 0 shaA _ _ [97, 98] rfl rfl first
      (by decide +kernel) (by decide +kernel)
  have second : Denotes blobDigest resolveExternalBase lateEntries 1
      ⟨.blob, [97, 98, 99]⟩ :=
    @Denotes.within _ _ lateEntries 1 2 shaAB _ _ [97, 98, 99] rfl rfl third
      (by decide +kernel) (by decide +kernel)
  match index, inside with
  | 0, _ => exact ⟨_, first⟩
  | 1, _ => exact ⟨_, second⟩
  | 2, _ => exact ⟨_, third⟩

def lateObjects : List ResolvedObject :=
  [⟨.blob, [97]⟩, ⟨.blob, [97, 98]⟩, ⟨.blob, [97, 98, 99]⟩]

theorem lateObjects_hash_injective : ∀ first ∈ lateObjects,
    ∀ second ∈ lateObjects,
      hashObject blobDigest first.type first.content =
        hashObject blobDigest second.type second.content → first = second := by
  decide +kernel

theorem lateEntries_base {entry : PackedEntry} {id content : List UInt8}
    {base : ResolvedObject} (member : entry ∈ lateEntries)
    (named : entry.base = .object id) (known : base ∈ lateObjects)
    (hash : hashObject blobDigest base.type base.content = bytesToHex id)
    (applied : applyDelta base.content entry.payload = .ok content) :
    (⟨base.type, content⟩ : ResolvedObject) ∈ lateObjects := by
  simp only [lateEntries, List.mem_cons, List.not_mem_nil, or_false] at member
  simp only [lateObjects, List.mem_cons, List.not_mem_nil, or_false] at known
  rcases member with rfl | rfl | rfl
  · cases named
  · cases named
    rcases known with rfl | rfl | rfl
    · exact absurd hash (by decide +kernel)
    · have made : applyDelta [97, 98] appendC = .ok [97, 98, 99] := by
        decide +kernel
      obtain rfl := Except.ok.inj (made.symm.trans applied)
      decide
    · exact absurd hash (by decide +kernel)
  · cases named
    rcases known with rfl | rfl | rfl
    · have made : applyDelta [97] appendB = .ok [97, 98] := by
        decide +kernel
      obtain rfl := Except.ok.inj (made.symm.trans applied)
      decide
    · exact absurd hash (by decide +kernel)
    · exact absurd hash (by decide +kernel)

theorem lateEntries_known
    (supplied : ∀ sha object,
      Supplied blobDigest resolveExternalBase sha object →
        object ∈ lateObjects) :
    ∀ object, Known blobDigest resolveExternalBase lateEntries object →
      object ∈ lateObjects := by
  intro object known
  rcases known with ⟨index, denotes⟩ | ⟨sha, given⟩
  · induction denotes with
    | whole found base =>
        have member := List.mem_of_getElem? found
        simp only [lateEntries, List.mem_cons, List.not_mem_nil,
          or_false] at member
        rcases member with rfl | rfl | rfl
        · cases base
          decide
        · cases base
        · cases base
    | offset found base baseFound start inner applied ih =>
        have member := List.mem_of_getElem? found
        simp only [lateEntries, List.mem_cons, List.not_mem_nil,
          or_false] at member
        rcases member with rfl | rfl | rfl
        · cases base
        · cases base
        · cases base
    | within found base inner hash applied ih =>
        exact lateEntries_base (List.mem_of_getElem? found) base ih hash applied
    | outside found base given applied =>
        exact lateEntries_base (List.mem_of_getElem? found) base
          (supplied _ _ given) given.hash applied
  · exact supplied sha object given

theorem lateEntries_collisionFree
    (supplied : ∀ sha object,
      Supplied blobDigest resolveExternalBase sha object →
        object ∈ lateObjects) :
    CollisionFree blobDigest resolveExternalBase lateEntries := by
  intro first second firstKnown secondKnown
  exact lateObjects_hash_injective first
    (lateEntries_known supplied first firstKnown) second
    (lateEntries_known supplied second secondKnown)

end

theorem readPack_base_later :
    PackFormat latePack lateEntries ∧
      (∀ index, index < lateEntries.length →
        ∃ object, Denotes blobDigest none lateEntries index object) ∧
      CollisionFree blobDigest none lateEntries ∧
      readPack blobDigest none latePack =
        .error (.noResolver (bytesToHex shaAB)) := by
  refine ⟨latePack_format, fun index inside => lateEntries_denoted inside,
    lateEntries_collisionFree ?_, by decide +kernel⟩
  rintro sha object ⟨fetchBase, given, _⟩
  cases given

def middleBlob (sha : Text) : Option (List UInt8) :=
  if sha = bytesToHex shaAB then some [97, 98] else none

theorem middleBlob_supplied (sha : Text) (object : ResolvedObject)
    (supplied : Supplied blobDigest (some middleBlob) sha object) :
    object ∈ lateObjects := by
  obtain ⟨fetchBase, given, found, hash⟩ := supplied
  obtain rfl := Option.some.inj given
  rw [middleBlob] at found
  split at found
  · next same =>
    obtain ⟨type, content⟩ := object
    obtain rfl := Option.some.inj found
    rw [same] at hash
    cases type with
    | blob => decide
    | tree | commit | tag => exact absurd hash (by decide +kernel)
  · cases found

theorem readPack_resolves_iff_supplied :
    (∃ objects, readPack blobDigest (some middleBlob) latePack = .ok objects ∧
      objects.length = lateEntries.length ∧
      ∀ index object,
        Denotes blobDigest (some middleBlob) lateEntries index object →
        objects[index]? = some (unpacked blobDigest object)) ↔
    ∀ index, index < lateEntries.length →
      BaseAtHand blobDigest (some middleBlob) lateEntries index :=
  readPack_resolves_iff blobDigest (some middleBlob) latePack_format
    (fun _ inside => lateEntries_denoted inside)
    (lateEntries_collisionFree middleBlob_supplied)

end Takos.Packs
