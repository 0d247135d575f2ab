import Takos.DurableObjects.Routing

/-!
# The tombstone index

A key reads back as its expiry and hostname, and the order of the keys is the
order of the expiries: the first key listed is the earliest one, and a cleanup
deletes exactly the keys that are due.
-/

namespace Takos.DurableObjects

open Takos.Foundation

variable {Number : Type}

theorem hexDigit_ne {char other : Char}
    (digit : HexKeys.isHexDigit char = true)
    (outside : HexKeys.isHexDigit other = false) : char ≠ other := by
  intro same
  rw [same, outside] at digit
  cases digit

theorem hexDigit_visible {char : Char}
    (digit : HexKeys.isHexDigit char = true) : Text.isSpace char = false := by
  have range := HexKeys.hexDigit_toNat digit
  simp only [Text.isSpace, Bool.or_eq_false_iff, Bool.and_eq_false_iff,
    decide_eq_false_iff_not]
  omega

theorem hexDigit_toLower {char : Char}
    (digit : HexKeys.isHexDigit char = true) : char.toLower = char := by
  have range := HexKeys.hexDigit_toNat digit
  have small : ¬('A'.val ≤ char.val ∧ char.val ≤ 'Z'.val) := by
    intro upper
    have low : 65 ≤ char.toNat := upper.1
    have high : char.toNat ≤ 90 := upper.2
    omega
  unfold Char.toLower
  split
  · rename_i upper
    exact absurd upper small
  · rfl

theorem parseHexInt_hex {hex : Text}
    (digits : ∀ char ∈ hex, HexKeys.isHexDigit char = true)
    (two : 2 ≤ hex.length) (positive : 0 < HexKeys.value hex)
    (small : HexKeys.value hex < 2 ^ 53) :
    parseHexInt hex = some (HexKeys.value hex) := by
  obtain ⟨first, second, rest, rfl⟩ : ∃ first second rest,
      hex = first :: second :: rest := by
    match hex, two with
    | first :: second :: rest, _ => exact ⟨first, second, rest, rfl⟩
  have firstDigit := digits first List.mem_cons_self
  have secondDigit := digits second
    (List.mem_cons_of_mem _ List.mem_cons_self)
  have trimmed : Text.trimStart (first :: second :: rest) =
      first :: second :: rest := by
    rw [Text.trimStart, List.dropWhile_cons_of_neg]
    rw [hexDigit_visible firstDigit]
    exact Bool.false_ne_true
  have lower : (first :: second :: rest).map Char.toLower =
      first :: second :: rest := by
    rw [List.map_congr_left fun char member =>
      hexDigit_toLower (digits char member)]
    exact List.map_id _
  have whole : (first :: second :: rest).takeWhile HexKeys.isHexDigit =
      first :: second :: rest := by
    apply List.takeWhile_eq_self_iff.mpr
    exact digits
  have below : HexKeys.value (first :: second :: rest) < doubleLimit :=
    Nat.lt_trans small (by decide +kernel)
  have read : parseHexInt.digits (first :: second :: rest) =
      some (HexKeys.value (first :: second :: rest)) := by
    unfold parseHexInt.digits
    rw [lower, whole]
    dsimp only
    rw [isDouble_of_lt small, if_pos ⟨List.cons_ne_nil _ _, below, positive⟩]
  have magnitude : parseHexInt.magnitude (first :: second :: rest) =
      some (HexKeys.value (first :: second :: rest)) := by
    unfold parseHexInt.magnitude
    split
    · rename_i same
      have isX := (List.cons.inj (List.cons.inj same).2).1
      exact absurd isX (hexDigit_ne secondDigit (by decide))
    · rename_i same
      have isX := (List.cons.inj (List.cons.inj same).2).1
      exact absurd isX (hexDigit_ne secondDigit (by decide))
    · exact read
  unfold parseHexInt
  rw [trimmed]
  split
  · rename_i same
    exact absurd (List.cons.inj same).1 (hexDigit_ne firstDigit (by decide))
  · rename_i same
    exact absurd (List.cons.inj same).1 (hexDigit_ne firstDigit (by decide))
  · exact magnitude

/-- The key of an expiry in whole milliseconds. -/
def expiryKey (expiry : Nat) (hostname : Text) : Text :=
  tombstonePrefix ++ HexKeys.padHex 16 expiry ++ ':' :: hostname

theorem tombstoneKey_eq (tombstoneUntilMs : ℚ) (hostname : Text) :
    tombstoneKey tombstoneUntilMs hostname =
      expiryKey ⌊tombstoneUntilMs⌋₊ hostname := rfl

/-- An expiry that a key can hold. -/
def ProperExpiry (expiry : Nat) : Prop := 0 < expiry ∧ expiry < 2 ^ 53

theorem ProperExpiry.length {expiry : Nat} (proper : ProperExpiry expiry) :
    (HexKeys.padHex 16 expiry).length = 16 :=
  HexKeys.length_padHex (by decide)
    (Nat.lt_trans proper.2 (by decide))

theorem parse_expiryKey {expiry : Nat} {hostname : Text}
    (proper : ProperExpiry expiry) (named : hostname ≠ []) :
    parseTombstoneKey (expiryKey expiry hostname) =
      some (expiry, hostname) := by
  have hex := HexKeys.padHex_hex 16 expiry
  have starts : Text.startsWith (expiryKey expiry hostname) tombstonePrefix =
      true := by
    rw [Text.startsWith, List.isPrefixOf_iff_prefix, expiryKey,
      List.append_assoc]
    exact List.prefix_append _ _
  have rest : (expiryKey expiry hostname).drop tombstonePrefix.length =
      HexKeys.padHex 16 expiry ++ ':' :: hostname := by
    rw [expiryKey, List.append_assoc, List.drop_left]
  have front : (HexKeys.padHex 16 expiry ++ ':' :: hostname).takeWhile
      (fun char => char ≠ ':') = HexKeys.padHex 16 expiry := by
    rw [List.takeWhile_append_of_pos]
    · simp
    · intro char member
      exact decide_eq_true (hexDigit_ne (hex char member) (by decide))
  have read : parseHexInt (HexKeys.padHex 16 expiry) = some expiry := by
    have value := HexKeys.value_padHex 16 expiry
    have parsed := parseHexInt_hex hex (by rw [proper.length]; decide)
      (by rw [value]; exact proper.1) (by rw [value]; exact proper.2)
    rw [value] at parsed
    exact parsed
  unfold parseTombstoneKey
  rw [starts, rest]
  dsimp only
  rw [front, List.drop_left]
  dsimp only
  rw [if_neg (by decide), if_neg named, read]
  rfl

theorem expiry_le_of_key_le {left right : Nat} {leftHost rightHost : Text}
    (leftProper : ProperExpiry left) (rightProper : ProperExpiry right)
    (order : expiryKey left leftHost ≤ expiryKey right rightHost) :
    left ≤ right := by
  have stripped : HexKeys.padHex 16 left ++ ':' :: leftHost ≤
      HexKeys.padHex 16 right ++ ':' :: rightHost := by
    simp only [expiryKey, tombstonePrefix, List.append_assoc] at order
    have first := HexKeys.le_of_cons_le_cons order
    exact HexKeys.le_of_cons_le_cons first
  have values := HexKeys.value_le_of_le (HexKeys.padHex_hex 16 left)
    (HexKeys.padHex_hex 16 right)
    (by rw [leftProper.length, rightProper.length]) stripped
  rw [HexKeys.value_padHex, HexKeys.value_padHex] at values
  exact values

/-- Every index key has been written by a deletion. -/
def WellKeyed (tombstones : List Text) : Prop :=
  ∀ key ∈ tombstones, ∃ expiry hostname,
    ProperExpiry expiry ∧ hostname ≠ [] ∧ key = expiryKey expiry hostname

variable {tombstones : List Text} {left right : Text}

theorem WellKeyed.parse (keyed : WellKeyed tombstones) {key : Text}
    (member : key ∈ tombstones) :
    ∃ expiry hostname, ProperExpiry expiry ∧
      parseTombstoneKey key = some (expiry, hostname) ∧
      key = expiryKey expiry hostname := by
  obtain ⟨expiry, hostname, proper, named, rfl⟩ := keyed key member
  exact ⟨expiry, hostname, proper, parse_expiryKey proper named, rfl⟩

theorem WellKeyed.sublist {tombstones fewer : List Text}
    (keyed : WellKeyed tombstones) (inside : fewer ⊆ tombstones) :
    WellKeyed fewer :=
  fun key member => keyed key (inside member)

theorem WellKeyed.insert (keyed : WellKeyed tombstones) {expiry : Nat}
    {hostname : Text} (proper : ProperExpiry expiry) (named : hostname ≠ []) :
    WellKeyed (tombstones.insert (expiryKey expiry hostname)) := by
  intro key member
  rcases List.mem_insert_iff.mp member with same | old
  · exact ⟨expiry, hostname, proper, named, same⟩
  · exact keyed key old

theorem WellKeyed.le (keyed : WellKeyed tombstones)
    (leftMember : left ∈ tombstones) (rightMember : right ∈ tombstones)
    (order : left ≤ right) {leftExpiry rightExpiry : Nat}
    {leftHost rightHost : Text}
    (leftParsed : parseTombstoneKey left = some (leftExpiry, leftHost))
    (rightParsed : parseTombstoneKey right = some (rightExpiry, rightHost)) :
    leftExpiry ≤ rightExpiry := by
  obtain ⟨first, firstHost, firstProper, firstRead, rfl⟩ :=
    keyed.parse leftMember
  obtain ⟨second, secondHost, secondProper, secondRead, rfl⟩ :=
    keyed.parse rightMember
  rw [firstRead] at leftParsed
  rw [secondRead] at rightParsed
  cases leftParsed
  cases rightParsed
  exact expiry_le_of_key_le firstProper secondProper order

theorem listTombstones_sorted (storage : RoutingStorage Number) :
    storage.listTombstones.Pairwise (· ≤ ·) := by
  have transitive : ∀ left middle right : Text,
      decide (left ≤ middle) = true → decide (middle ≤ right) = true →
        decide (left ≤ right) = true := by
    intro left middle right first second
    exact decide_eq_true (le_trans (of_decide_eq_true first)
      (of_decide_eq_true second))
  have total : ∀ left right : Text,
      (decide (left ≤ right) || decide (right ≤ left)) = true := by
    intro left right
    rcases le_total left right with before | after
    · rw [decide_eq_true before, Bool.true_or]
    · rw [decide_eq_true after, Bool.or_true]
  have sorted := List.pairwise_mergeSort transitive total storage.tombstones
  exact sorted.imp of_decide_eq_true

theorem listTombstones_le {storage : RoutingStorage Number}
    {front back : List Text} (listed : storage.listTombstones = front ++ back)
    (leftMember : left ∈ front) (rightMember : right ∈ back) :
    left ≤ right := by
  have sorted := listTombstones_sorted storage
  rw [listed, List.pairwise_append] at sorted
  exact sorted.2.2 left leftMember right rightMember

theorem scheduled_cases {storage : RoutingStorage Number}
    (keyed : WellKeyed storage.tombstones) (now : ClockReading) :
    storage.tombstones = [] ∧
        storage.scheduleNextCleanupAlarm now = { storage with alarm := none } ∨
      ∃ expiry hostname, (∃ key ∈ storage.tombstones,
          parseTombstoneKey key = some (expiry, hostname)) ∧
        (∀ key ∈ storage.tombstones, ∀ later host,
          parseTombstoneKey key = some (later, host) → expiry ≤ later) ∧
        storage.scheduleNextCleanupAlarm now =
          { storage with alarm := some (max (now.ms + 1000 : ℚ) expiry) } := by
  unfold RoutingStorage.scheduleNextCleanupAlarm
  cases listed : storage.listTombstones with
  | nil =>
      apply Or.inl
      refine ⟨?_, rfl⟩
      apply List.eq_nil_iff_forall_not_mem.mpr
      intro key member
      rw [← storage.mem_listTombstones, listed] at member
      cases member
  | cons key rest =>
      have member : key ∈ storage.tombstones := by
        rw [← storage.mem_listTombstones, listed]
        exact List.mem_cons_self
      obtain ⟨expiry, hostname, _, read, _⟩ := keyed.parse member
      refine .inr ⟨expiry, hostname, ⟨key, member, read⟩, ?_, ?_⟩
      · intro other otherMember later host otherRead
        have inside := storage.mem_listTombstones.mpr otherMember
        rw [listed] at inside
        rcases List.mem_cons.mp inside with same | behind
        · rw [same, read] at otherRead
          cases otherRead
          exact Nat.le_refl _
        · have split : storage.listTombstones = [key] ++ rest := listed
          have order := listTombstones_le split List.mem_cons_self behind
          exact keyed.le member otherMember order read otherRead
      · dsimp only
        rw [read]

def isFuture (now : ClockReading) (key : Text) : Bool :=
  match parseTombstoneKey key with
  | some (expiry, _) => now.ms < expiry
  | none => false

theorem WellKeyed.future_of_le (keyed : WellKeyed tombstones)
    {now : ClockReading} (leftMember : left ∈ tombstones)
    (rightMember : right ∈ tombstones) (order : left ≤ right)
    (future : isFuture now left = true) : isFuture now right = true := by
  obtain ⟨first, firstHost, _, firstRead, _⟩ := keyed.parse leftMember
  obtain ⟨second, secondHost, _, secondRead, _⟩ := keyed.parse rightMember
  have expiries :=
    keyed.le leftMember rightMember order firstRead secondRead
  simp only [isFuture, firstRead, decide_eq_true_eq] at future
  simp only [isFuture, secondRead, decide_eq_true_eq]
  exact Nat.lt_of_lt_of_le future expiries

namespace RoutingStorage

theorem rolloutAlarm_dropTombstone (storage : RoutingStorage Number)
    (key : Text) (parsed : Option (Nat × Text)) :
    (storage.dropTombstone key parsed).rolloutAlarm =
      storage.rolloutAlarm := by
  unfold dropTombstone
  split
  · rfl
  · split
    · rfl
    · split <;> rfl

theorem cleanupBatch_spec (now : ClockReading) (batch : List Text)
    (storage : RoutingStorage Number) :
    (cleanupBatch now storage batch).1.rolloutAlarm = storage.rolloutAlarm ∧
      (cleanupBatch now storage batch).2 = batch.any (isFuture now) ∧
      ∀ key, key ∈ (cleanupBatch now storage batch).1.tombstones ↔
        key ∈ storage.tombstones ∧
          key ∉ batch.takeWhile fun listed => !isFuture now listed := by
  induction batch generalizing storage with
  | nil => exact ⟨rfl, rfl, fun key => by simp [cleanupBatch]⟩
  | cons first rest ih =>
      have dropped : isFuture now first = false → ∀ parsed,
          cleanupBatch now storage (first :: rest) =
            cleanupBatch now (storage.dropTombstone first parsed) rest →
          (cleanupBatch now storage (first :: rest)).1.rolloutAlarm =
              storage.rolloutAlarm ∧
            (cleanupBatch now storage (first :: rest)).2 =
              (first :: rest).any (isFuture now) ∧
            ∀ key, key ∈
                (cleanupBatch now storage (first :: rest)).1.tombstones ↔
              key ∈ storage.tombstones ∧ key ∉
                (first :: rest).takeWhile fun listed =>
                  !isFuture now listed := by
        intro past parsed step
        obtain ⟨rollout, stopped, kept⟩ :=
          ih (storage.dropTombstone first parsed)
        rw [step]
        refine ⟨?_, ?_, ?_⟩
        · rw [rollout, rolloutAlarm_dropTombstone]
        · rw [stopped, List.any_cons, past, Bool.false_or]
        · intro key
          rw [kept, tombstones_dropTombstone, List.mem_filter,
            List.takeWhile_cons_of_pos (by rw [past]; rfl), List.mem_cons,
            decide_eq_true_eq, not_or, and_assoc]
      cases read : parseTombstoneKey first with
      | none =>
          apply dropped _ none
          · rw [cleanupBatch, read]
          · rw [isFuture, read]
      | some parsed =>
          obtain ⟨expiry, hostname⟩ := parsed
          by_cases due : now.ms < expiry
          · have future : isFuture now first = true := by
              rw [isFuture, read]
              exact decide_eq_true due
            have stop : cleanupBatch now storage (first :: rest) =
                (storage, true) := by
              rw [cleanupBatch, read]
              exact if_pos due
            rw [stop]
            refine ⟨rfl, ?_, ?_⟩
            · rw [List.any_cons, future, Bool.true_or]
            · intro key
              rw [List.takeWhile_cons_of_neg (by rw [future]; decide)]
              simp
          · apply dropped _ (some (expiry, hostname))
            · rw [cleanupBatch, read]
              exact if_neg due
            · rw [isFuture, read]
              exact decide_eq_false due

variable {now : ClockReading}

theorem future_of_kept {storage : RoutingStorage Number}
    (keyed : WellKeyed storage.tombstones) {batch later : List Text}
    (listed : storage.listTombstones = batch ++ later)
    (stopped : batch.any (isFuture now) = true) {key : Text}
    (member : key ∈ storage.tombstones)
    (kept : key ∉ batch.takeWhile fun listed => !isFuture now listed) :
    isFuture now key = true := by
  have stored : ∀ {other}, other ∈ batch ++ later →
      other ∈ storage.tombstones := by
    intro other inside
    rw [← listed] at inside
    exact storage.mem_listTombstones.mp inside
  have inside := storage.mem_listTombstones.mpr member
  rw [listed] at inside
  rcases List.mem_append.mp inside with early | late
  · rw [← List.takeWhile_append_dropWhile (p := fun listed =>
      !isFuture now listed) (l := batch), List.mem_append] at early
    have behind := early.resolve_left kept
    cases tail : batch.dropWhile fun listed => !isFuture now listed with
    | nil =>
        rw [tail] at behind
        cases behind
    | cons first rest =>
        have future : isFuture now first = true := by
          have headed := List.head?_dropWhile_not
            (fun listed => !isFuture now listed) batch
          rw [tail] at headed
          simpa using headed
        rw [tail] at behind
        rcases List.mem_cons.mp behind with same | further
        · rw [same]
          exact future
        · have whole : storage.listTombstones =
              (batch.takeWhile (fun listed => !isFuture now listed) ++
                [first]) ++ (rest ++ later) := by
            rw [listed]
            conv_lhs => rw [← List.takeWhile_append_dropWhile
              (p := fun listed => !isFuture now listed) (l := batch), tail]
            simp
          have order := listTombstones_le whole
            (List.mem_append_right _ List.mem_cons_self)
            (List.mem_append_left _ further)
          have firstStored : first ∈ storage.tombstones := by
            rw [← storage.mem_listTombstones, whole]
            simp
          exact keyed.future_of_le firstStored member order future
  · obtain ⟨first, firstMember, future⟩ := List.any_eq_true.mp stopped
    exact keyed.future_of_le
      (stored (List.mem_append_left _ firstMember)) member
      (listTombstones_le listed firstMember late) future

theorem cleanup_of_stop {storage next : RoutingStorage Number} {first : Text}
    {rest : List Text} (listed : storage.listTombstones = first :: rest)
    (round : cleanupBatch now storage (first :: rest.take 127) = (next, true)) :
    cleanupExpiredTombstones now storage = next := by
  rw [cleanupExpiredTombstones]
  split
  · rename_i none
    rw [listed] at none
    cases none
  · rename_i other
    rw [listed] at other
    cases other
    split
    · rename_i again
      rw [round] at again
      cases again
      rfl
    · rename_i again
      rw [round] at again
      cases again

theorem cleanup_of_round {storage next : RoutingStorage Number} {first : Text}
    {rest : List Text} (listed : storage.listTombstones = first :: rest)
    (round : cleanupBatch now storage (first :: rest.take 127) =
      (next, false)) :
    cleanupExpiredTombstones now storage =
      cleanupExpiredTombstones now next := by
  rw [cleanupExpiredTombstones]
  split
  · rename_i none
    rw [listed] at none
    cases none
  · rename_i other
    rw [listed] at other
    cases other
    split
    · rename_i again
      rw [round] at again
      cases again
    · rename_i again
      rw [round] at again
      cases again
      rfl

/-- A cleanup leaves the rollout entry alone and keeps exactly the keys of the
future. -/
theorem cleanup_spec (now : ClockReading) (storage : RoutingStorage Number)
    (keyed : WellKeyed storage.tombstones) :
    (cleanupExpiredTombstones now storage).rolloutAlarm =
        storage.rolloutAlarm ∧
      ∀ key, key ∈ (cleanupExpiredTombstones now storage).tombstones ↔
        key ∈ storage.tombstones ∧ isFuture now key = true := by
  induction storage using cleanupExpiredTombstones.induct now with
  | case1 storage listed =>
      rw [cleanupExpiredTombstones]
      split
      · refine ⟨rfl, ?_⟩
        intro key
        rw [← storage.mem_listTombstones, listed]
        simp
      · rename_i other
        rw [listed] at other
        cases other
  | case2 storage first rest listed next round =>
      have whole : storage.listTombstones =
          (first :: rest.take 127) ++ rest.drop 127 := by
        rw [listed, List.cons_append, List.take_append_drop]
      obtain ⟨rollout, stopped, kept⟩ :=
        cleanupBatch_spec now (first :: rest.take 127) storage
      rw [round] at rollout stopped kept
      rw [cleanup_of_stop listed round]
      refine ⟨rollout, ?_⟩
      intro key
      rw [kept]
      apply and_congr_right
      intro member
      refine ⟨future_of_kept keyed whole stopped.symm member, ?_⟩
      intro future dropped
      have past := List.mem_takeWhile_imp dropped
      rw [future] at past
      cases past
  | case3 storage first rest listed next round ih =>
      obtain ⟨rollout, stopped, kept⟩ :=
        cleanupBatch_spec now (first :: rest.take 127) storage
      rw [round] at rollout stopped kept
      have inside : next.tombstones ⊆ storage.tombstones :=
        fun key member => ((kept key).mp member).1
      obtain ⟨laterRollout, laterKept⟩ := ih (keyed.sublist inside)
      rw [cleanup_of_round listed round]
      refine ⟨laterRollout.trans rollout, ?_⟩
      intro key
      rw [laterKept, kept, and_assoc]
      apply and_congr_right
      intro member
      refine ⟨And.right, ?_⟩
      intro future
      refine ⟨?_, future⟩
      intro dropped
      have past := List.mem_takeWhile_imp dropped
      rw [future] at past
      cases past

end RoutingStorage

end Takos.DurableObjects
