import Takos.Packs.BitReading

/-!
# Decoding tables

`buildHuffman` counts the codes of each length and sorts the symbols by length
and number; `decode` then walks the lengths and finds the symbol of every word
of the canonical code.
-/

namespace Takos.Packs

open Takos.Foundation

/-- Tables that describe a canonical code. -/
structure Represents (h : Huffman) (lengths : List Nat) : Prop where
  bounded : ∀ length ∈ lengths, length ≤ MAX_BITS
  counts : ∀ length, length ≤ MAX_BITS →
    h.counts.getD length 0 = lengths.count length
  symbols : ∀ symbol length, lengths[symbol]? = some length → length ≠ 0 →
    h.symbols.getD (codeSlot lengths symbol length) 0 = symbol

theorem getD_zeros (count place : Nat) :
    (List.replicate count 0).getD place 0 = 0 := by
  rw [List.getD_eq_getElem?_getD, List.getElem?_replicate]
  split <;> rfl

theorem getD_modify_succ (values : List Nat) {target place : Nat}
    (inside : target < values.length) :
    (values.modify target (· + 1)).getD place 0 =
      values.getD place 0 + if place = target then 1 else 0 := by
  simp only [List.getD_eq_getElem?_getD, List.getElem?_modify]
  by_cases same : target = place
  · subst same
    simp [List.getElem?_eq_getElem inside]
  · simp [same, Ne.symm same]

theorem countLengths_spec (lengths : List Nat)
    (bounded : ∀ length ∈ lengths, length ≤ MAX_BITS) (counts : List Nat)
    (size : counts.length = MAX_BITS + 1) :
    ∃ result, countLengths counts lengths = .ok result ∧
      ∀ length, result.getD length 0 =
        counts.getD length 0 + lengths.count length := by
  induction lengths generalizing counts with
  | nil => exact ⟨counts, rfl, fun length => rfl⟩
  | cons len lengths ih =>
      have short : len ≤ MAX_BITS := bounded len List.mem_cons_self
      obtain ⟨result, ran, counted⟩ :=
        ih (fun length member => bounded length (.tail _ member))
          (counts.modify len (· + 1)) (by rw [List.length_modify, size])
      refine ⟨result, ?_, fun length => ?_⟩
      · rw [countLengths, if_neg (Nat.not_lt.mpr short)]
        exact ran
      · rw [counted, getD_modify_succ counts (by omega), List.count_cons]
        by_cases same : length = len
        · simp [same]
          omega
        · simp [same, Ne.symm same]

variable {lengths : List Nat}

theorem offsets_after {counts : List Nat}
    (counted : ∀ length, 0 < length → length ≤ MAX_BITS →
      counts.getD length 0 = lengths.count length) (rounds : Nat)
    (within : rounds ≤ MAX_BITS) :
    let offsets := (List.range' 1 rounds).foldl
      (fun offsets len =>
        offsets.set (len + 1) (offsets.getD len 0 + counts.getD len 0))
      (List.replicate (MAX_BITS + 2) 0)
    offsets.length = MAX_BITS + 2 ∧
      ∀ length, 0 < length → length ≤ rounds + 1 →
        offsets.getD length 0 = shorterCodes lengths length := by
  induction rounds with
  | zero =>
      refine ⟨by simp, fun length positive bound => ?_⟩
      obtain rfl : length = 1 := by omega
      rw [shorterCodes_one]
      rfl
  | succ rounds ih =>
      obtain ⟨size, correct⟩ := ih (by omega)
      simp only [List.range'_1_concat, List.foldl_append, List.foldl_cons,
        List.foldl_nil]
      refine ⟨by rw [List.length_set, size], fun length positive bound => ?_⟩
      rw [List.getD_eq_getElem?_getD, List.getElem?_set]
      by_cases newest : 1 + rounds + 1 = length
      · rw [if_pos newest, if_pos (by omega), Option.getD_some,
          correct (1 + rounds) (by omega) (by omega),
          counted (1 + rounds) (by omega) (by omega), ← newest,
          shorterCodes_succ lengths (by omega)]
      · rw [if_neg newest, ← List.getD_eq_getElem?_getD]
        exact correct length positive (by omega)

/-- The symbols placed so far: `done` is the part of the lengths that the loop
has passed. -/
structure Placing (lengths done offsets symbols : List Nat) : Prop where
  size : offsets.length = MAX_BITS + 2
  offsets : ∀ length, 0 < length → length ≤ MAX_BITS →
    offsets.getD length 0 = shorterCodes lengths length + done.count length
  room : symbols.length = lengths.length
  placed : ∀ symbol length, symbol < done.length →
    lengths[symbol]? = some length → length ≠ 0 →
      symbols.getD (codeSlot lengths symbol length) 0 = symbol

theorem Placing.skip {done offsets symbols : List Nat}
    (placing : Placing lengths done offsets symbols) {rest : List Nat}
    (split : lengths = done ++ 0 :: rest) :
    Placing lengths (done ++ [0]) offsets symbols where
  size := placing.size
  offsets length positive bound := by
    have absent : [0].count length = 0 := by
      rw [List.count_eq_zero, List.mem_singleton]
      omega
    rw [placing.offsets length positive bound, List.count_append, absent,
      Nat.add_zero]
  room := placing.room
  placed symbol length before assigned used := by
    apply placing.placed symbol length _ assigned used
    rw [List.length_append, List.length_singleton] at before
    rcases Nat.lt_succ_iff_lt_or_eq.mp before with earlier | newest
    · exact earlier
    · rw [split, newest, List.getElem?_append_right (Nat.le_refl _),
        Nat.sub_self] at assigned
      exact absurd (Option.some.inj assigned).symm used

theorem Placing.place {done offsets symbols : List Nat} {len : Nat}
    (placing : Placing lengths done offsets symbols) {rest : List Nat}
    (split : lengths = done ++ len :: rest) (used : len ≠ 0)
    (short : len ≤ MAX_BITS) :
    Placing lengths (done ++ [len]) (offsets.modify len (· + 1))
      (symbols.set (offsets.getD len 0) done.length) := by
  have assignedNew : lengths[done.length]? = some len := by
    rw [split, List.getElem?_append_right (Nat.le_refl _), Nat.sub_self]
    rfl
  have slot : offsets.getD len 0 = codeSlot lengths done.length len := by
    rw [placing.offsets len (Nat.pos_of_ne_zero used) short, codeSlot, split,
      List.take_left]
  have inside : codeSlot lengths done.length len < symbols.length := by
    rw [placing.room]
    exact codeSlot_lt_length assignedNew used
  refine ⟨?_, ?_, ?_, ?_⟩
  · rw [List.length_modify, placing.size]
  · intro length positive bound
    rw [getD_modify_succ offsets (by rw [placing.size]; omega),
      placing.offsets length positive bound, List.count_append,
      List.count_singleton]
    by_cases same : length = len
    · simp [same]
      omega
    · simp [same, Ne.symm same]
  · rw [List.length_set, placing.room]
  · intro symbol length before assigned usedSymbol
    rw [slot, List.getD_eq_getElem?_getD, List.getElem?_set]
    rw [List.length_append, List.length_singleton] at before
    rcases Nat.lt_succ_iff_lt_or_eq.mp before with earlier | newest
    · have apart : codeSlot lengths symbol length ≠
          codeSlot lengths done.length len :=
        codeSlot_ne assigned assignedNew usedSymbol used earlier
      rw [if_neg apart.symm, ← List.getD_eq_getElem?_getD]
      exact placing.placed symbol length earlier assigned usedSymbol
    · rw [newest, assignedNew] at assigned
      obtain rfl := Option.some.inj assigned
      rw [newest, if_pos rfl, if_pos inside, Option.getD_some]

theorem placeSymbols_spec (bounded : ∀ length ∈ lengths, length ≤ MAX_BITS)
    (rest : List Nat) {done offsets symbols : List Nat}
    (split : lengths = done ++ rest)
    (placing : Placing lengths done offsets symbols) :
    ∀ symbol length, lengths[symbol]? = some length → length ≠ 0 →
      (placeSymbols offsets symbols done.length rest).getD
        (codeSlot lengths symbol length) 0 = symbol := by
  induction rest generalizing done offsets symbols with
  | nil =>
      intro symbol length assigned used
      apply placing.placed symbol length _ assigned used
      rw [List.append_nil] at split
      rw [← split]
      exact (List.getElem?_eq_some_iff.mp assigned).1
  | cons len rest ih =>
      have further : lengths = (done ++ [len]) ++ rest := by simpa using split
      have size : (done ++ [len]).length = done.length + 1 := by simp
      have short : len ≤ MAX_BITS := by
        apply bounded
        rw [split]
        exact List.mem_append_right _ List.mem_cons_self
      by_cases unused : len = 0
      · subst unused
        have passed := ih further (placing.skip split)
        rw [size] at passed
        rw [placeSymbols, if_pos rfl]
        exact passed
      · have passed := ih further (placing.place split unused short)
        rw [size] at passed
        rw [placeSymbols, if_neg unused]
        exact passed

theorem buildHuffman_represents
    (bounded : ∀ length ∈ lengths, length ≤ MAX_BITS) :
    ∃ h, buildHuffman lengths = .ok h ∧ Represents h lengths := by
  obtain ⟨counts, ran, counted⟩ := countLengths_spec lengths bounded
    (List.replicate (MAX_BITS + 1) 0) (List.length_replicate)
  have correct : ∀ length, counts.getD length 0 = lengths.count length := by
    intro length
    rw [counted, getD_zeros, Nat.zero_add]
  obtain ⟨size, starts⟩ :=
    offsets_after (fun length _ _ => correct length) MAX_BITS (Nat.le_refl _)
  have placing : Placing lengths [] (lengthOffsets counts)
      (List.replicate lengths.length 0) :=
    { size := size
      offsets := fun length positive bound =>
        starts length positive (Nat.le_succ_of_le bound)
      room := List.length_replicate
      placed := fun _ _ before => absurd before (Nat.not_lt_zero _) }
  refine ⟨⟨counts, placeSymbols (lengthOffsets counts)
    (List.replicate lengths.length 0) 0 lengths⟩, ?_, ?_⟩
  · simp only [buildHuffman, ran, bind, Except.bind, pure, Except.pure]
  · exact
      { bounded := bounded
        counts := fun length _ => correct length
        symbols := placeSymbols_spec bounded lengths rfl placing }

theorem or_toNat (code : Nat) (bit : Bool) :
    2 * code ||| bit.toNat = 2 * code + bit.toNat := by
  have small : bit.toNat < 2 ^ 1 := bit.toNat_lt
  exact (Nat.two_pow_add_eq_or_of_lt small code).symm

theorem decodeFrom_spec {h : Huffman} (represents : Represents h lengths)
    {symbol : Nat} {word : List Bool} (code : IsCode lengths symbol word)
    {buf : List UInt8} {rest : List Bool} (left : List Bool)
    {seen : List Bool} (split : word = seen ++ left) (proper : left ≠ [])
    {reader : BitReader} (reading : Reading buf reader (left ++ rest)) :
    ∃ next,
      BitReader.decodeFrom h (MAX_BITS - seen.length) (seen.length + 1)
        (2 * codeOf seen) (firstCode lengths (seen.length + 1))
        (shorterCodes lengths (seen.length + 1)) reader = .ok (symbol, next) ∧
      Reading buf next rest := by
  have short : word.length ≤ MAX_BITS := represents.bounded _ code.length_mem
  induction left generalizing seen reader with
  | nil => exact absurd rfl proper
  | cons bit left ih =>
      obtain ⟨next, ran, following⟩ := Reading.bit reading
      have longer : word = (seen ++ [bit]) ++ left := by simpa using split
      have size : (seen ++ [bit]).length = seen.length + 1 := by simp
      have bound : seen.length + 1 ≤ MAX_BITS := by
        have := congrArg List.length longer
        rw [List.length_append, size] at this
        omega
      have steps : MAX_BITS - seen.length =
          (MAX_BITS - (seen.length + 1)) + 1 := by omega
      have value : 2 * codeOf seen ||| bit.toNat = codeOf (seen ++ [bit]) := by
        rw [or_toNat, codeOf_append_singleton]
      have counted : h.counts.getD (seen.length + 1) 0 =
          lengths.count (seen.length + 1) := represents.counts _ bound
      rw [steps, BitReader.decodeFrom]
      simp only [ran, bind, Except.bind, value, counted]
      cases left with
      | nil =>
          -- the whole word is read: its code is one of this length
          rw [List.append_nil] at longer
          have assigned := code.assigned
          have codeValue := code.value
          rw [longer, size] at assigned
          rw [longer, size] at codeValue
          have among := count_take_lt_count assigned
          have found := represents.symbols symbol _ assigned
            (Nat.succ_ne_zero _)
          refine ⟨next, ?_, following⟩
          rw [if_pos (by omega), codeValue, Nat.add_sub_cancel_left]
          rw [codeSlot] at found
          rw [found]
          rfl
      | cons following' left =>
          -- a proper prefix is above all codes of its own length
          have above := firstCode_add_count_le code (following' :: left) longer
            (List.cons_ne_nil _ _)
          rw [size, if_neg (Nat.succ_ne_zero _)] at above
          obtain ⟨last, rested, done⟩ :=
            ih longer (List.cons_ne_nil _ _) following
          refine ⟨last, ?_, done⟩
          rw [size] at rested
          rw [if_neg (Nat.not_lt.mpr above), ← rested]
          simp only [Nat.shiftLeft_eq, pow_one, Nat.mul_comm _ 2,
            firstCode, if_neg (Nat.succ_ne_zero seen.length),
            shorterCodes_succ lengths (Nat.succ_pos seen.length)]

theorem Reading.decode {h : Huffman} (represents : Represents h lengths)
    {symbol : Nat} {word : List Bool} (code : IsCode lengths symbol word)
    {buf : List UInt8} {reader : BitReader} {rest : List Bool}
    (reading : Reading buf reader (word ++ rest)) :
    ∃ next, reader.decode h = .ok (symbol, next) ∧ Reading buf next rest := by
  have walked := decodeFrom_spec represents code word (List.nil_append word).symm
    code.nonempty reading
  rw [List.length_nil, codeOf_nil, shorterCodes_one] at walked
  exact walked

end Takos.Packs
