import Takos.Packs.HuffmanTables

/-!
# What a read tells about the bits

Where the bit reader or a decoding table returns a value, the bits that it has
taken off are the number or the code word that it returns.
-/

namespace Takos.Packs

open Takos.Foundation

section

variable {buf : List UInt8} {reader next : BitReader} {bits : List Bool}

theorem fill_short (n rounds : Nat) (buffered : Buffered buf reader bits)
    (short : bits.length < n) (suffices_rounds : n ≤ reader.bitCnt + 8 * rounds) :
    BitReader.fill n rounds reader = .error .unexpectedEnd := by
  induction rounds generalizing reader with
  | zero =>
      have length := buffered.length
      rw [BitReader.unread] at length
      omega
  | succ rounds ih =>
      have length := buffered.length
      rw [BitReader.unread] at length
      rw [BitReader.fill, if_pos (by omega)]
      cases found : reader.buf[reader.pos]? with
      | none => rfl
      | some byte =>
          exact ih (buffered.fetch found) (by simp only; omega)

theorem Reading.bits_short {n : Nat} (reading : Reading buf reader bits)
    (short : bits.length < n) : reader.bits n = .error .unexpectedEnd := by
  rw [BitReader.bits, fill_short n n reading.toBuffered short (by omega)]
  rfl

theorem Reading.bits_inv {n value : Nat} (reading : Reading buf reader bits)
    (ran : reader.bits n = .ok (value, next)) :
    ∃ word rest, bits = word ++ rest ∧ word.length = n ∧
      value = ofBits word ∧ Reading buf next rest := by
  by_cases enough : n ≤ bits.length
  · have width : (bits.take n).length = n := List.length_take_of_le enough
    have split : Reading buf reader (bits.take n ++ bits.drop n) := by
      rw [List.take_append_drop]
      exact reading
    obtain ⟨other, again, following⟩ := split.bits
    rw [width, ran] at again
    obtain ⟨rfl, rfl⟩ := Prod.mk.inj (Except.ok.inj again)
    exact ⟨_, _, (List.take_append_drop n bits).symm, width, rfl, following⟩
  · rw [reading.bits_short (Nat.not_le.mp enough)] at ran
    cases ran

theorem Reading.bit_inv {value : Nat} (reading : Reading buf reader bits)
    (ran : reader.bits 1 = .ok (value, next)) :
    ∃ bit rest, bits = bit :: rest ∧ value = bit.toNat ∧
      Reading buf next rest := by
  obtain ⟨word, rest, rfl, length, rfl, following⟩ := reading.bits_inv ran
  obtain ⟨bit, rfl⟩ := List.length_eq_one_iff.mp length
  exact ⟨bit, rest, rfl, by simp [ofBits], following⟩

theorem exists_symbol {lengths : List Nat} {length rank : Nat}
    (below : rank < lengths.count length) :
    ∃ symbol, lengths[symbol]? = some length ∧
      (lengths.take symbol).count length = rank := by
  induction lengths generalizing rank with
  | nil => simp at below
  | cons first lengths ih =>
      by_cases same : first = length
      · subst same
        cases rank with
        | zero => exact ⟨0, rfl, rfl⟩
        | succ rank =>
            rw [List.count_cons_self] at below
            obtain ⟨symbol, assigned, before⟩ := ih (Nat.lt_of_succ_lt_succ below)
            refine ⟨symbol + 1, assigned, ?_⟩
            rw [List.take_succ_cons, List.count_cons_self, before]
      · rw [List.count_cons_of_ne same] at below
        obtain ⟨symbol, assigned, before⟩ := ih below
        refine ⟨symbol + 1, assigned, ?_⟩
        rw [List.take_succ_cons, List.count_cons_of_ne same, before]

/-- The walk through the lengths, after `seen` bits that are no code word and
are above all codes of their length. -/
theorem decodeFrom_inv {h : Huffman} {lengths : List Nat}
    (represents : Represents h lengths) (steps : Nat) {seen : List Bool}
    (left : steps + seen.length = MAX_BITS)
    (above : firstCode lengths (seen.length + 1) ≤ 2 * codeOf seen)
    {symbol : Nat} (reading : Reading buf reader bits)
    (ran : BitReader.decodeFrom h steps (seen.length + 1) (2 * codeOf seen)
      (firstCode lengths (seen.length + 1))
      (shorterCodes lengths (seen.length + 1)) reader = .ok (symbol, next)) :
    ∃ word rest, bits = word ++ rest ∧ IsCode lengths symbol (seen ++ word) ∧
      Reading buf next rest := by
  induction steps generalizing seen reader bits with
  | zero => cases ran
  | succ steps ih =>
      rw [BitReader.decodeFrom] at ran
      cases read : reader.bits 1 with
      | error error => simp [read, bind, Except.bind] at ran
      | ok one =>
          obtain ⟨value, after⟩ := one
          obtain ⟨bit, rest, rfl, rfl, following⟩ := reading.bit_inv read
          have size : (seen ++ [bit]).length = seen.length + 1 := by simp
          have code : 2 * codeOf seen ||| bit.toNat = codeOf (seen ++ [bit]) := by
            rw [or_toNat, codeOf_append_singleton]
          have counted : h.counts.getD (seen.length + 1) 0 =
              lengths.count (seen.length + 1) :=
            represents.counts _ (by omega)
          have least : firstCode lengths (seen.length + 1) ≤
              codeOf (seen ++ [bit]) := by
            rw [codeOf_append_singleton]
            omega
          simp only [read, bind, Except.bind, code, counted] at ran
          by_cases found : codeOf (seen ++ [bit]) <
              firstCode lengths (seen.length + 1) +
                lengths.count (seen.length + 1)
          · -- the symbol of this length with the number of the code
            rw [if_pos found] at ran
            obtain ⟨place, assigned, before⟩ := exists_symbol
              (show codeOf (seen ++ [bit]) -
                firstCode lengths (seen.length + 1) <
                  lengths.count (seen.length + 1) by omega)
            have slot := represents.symbols place _ assigned
              (Nat.succ_ne_zero _)
            rw [codeSlot, before] at slot
            rw [slot] at ran
            obtain ⟨rfl, rfl⟩ := Prod.mk.inj (Except.ok.inj ran)
            refine ⟨[bit], rest, rfl, ⟨?_, by simp, ?_⟩, following⟩
            · rw [size]
              exact assigned
            · rw [size, before]
              omega
          · rw [if_neg found] at ran
            have further := @ih _ _ (seen ++ [bit]) (by rw [size]; omega)
              (by
                rw [size, firstCode, if_neg (Nat.succ_ne_zero _)]
                omega) following
            rw [size] at further
            obtain ⟨word, others, rfl, isCode, done⟩ := further (by
              rw [← ran]
              simp only [Nat.shiftLeft_eq, pow_one, Nat.mul_comm _ 2,
                firstCode, if_neg (Nat.succ_ne_zero seen.length),
                shorterCodes_succ lengths (Nat.succ_pos seen.length)])
            rw [List.append_assoc] at isCode
            exact ⟨bit :: word, others, rfl, isCode, done⟩

theorem Reading.decode_inv {h : Huffman} {lengths : List Nat}
    (represents : Represents h lengths) {symbol : Nat}
    (reading : Reading buf reader bits)
    (ran : reader.decode h = .ok (symbol, next)) :
    ∃ word rest, bits = word ++ rest ∧ IsCode lengths symbol word ∧
      Reading buf next rest := by
  have walked := @decodeFrom_inv _ _ next _ h lengths represents MAX_BITS []
    rfl (by simp [firstCode]) symbol reading
  rw [List.length_nil, codeOf_nil, shorterCodes_one] at walked
  exact walked ran

theorem Reading.decode_empty {h : Huffman} (reading : Reading buf reader []) :
    reader.decode h = .error .unexpectedEnd := by
  rw [BitReader.decode, MAX_BITS, BitReader.decodeFrom,
    reading.bits_short (Nat.one_pos)]
  rfl

end

end Takos.Packs
