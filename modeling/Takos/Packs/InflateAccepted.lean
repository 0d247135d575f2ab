import Takos.Packs.BitReadingBack
import Takos.Packs.InflateStreams

/-!
# What the inflater accepts

Where `inflateRawAt` returns, a stream stands at its offset whose content and
length it returns.  The stream may break the rules of the format in the headers
of its dynamic blocks: a run of code lengths is cut off where it is too long,
and no set of code lengths is rejected.
-/

namespace Takos.Packs

open Takos.Foundation Takos.Foundation.Deflate

theorem ok_of_bind {Error Value Result : Type} {first : Except Error Value}
    {further : Value → Except Error Result} {result : Result}
    (ran : (first >>= further) = .ok result) :
    ∃ value, first = .ok value ∧ further value = .ok result := by
  cases first with
  | error error => cases ran
  | ok value => exact ⟨value, rfl, ran⟩

theorem copyLoop_copies (len : Nat) {out done : List UInt8} {distance : Nat}
    (copies : Copies out distance done) :
    ∃ copied, copyLoop len (out.length - distance + done.length) (out ++ done) =
        out ++ (done ++ copied) ∧
      copied.length = len ∧ Copies out distance (done ++ copied) := by
  induction len generalizing done with
  | zero => exact ⟨[], by simp [copyLoop], rfl, by simpa using copies⟩
  | succ len ih =>
      have back := copies.back
      have within := copies.within
      have place : out.length - distance + done.length =
          out.length + done.length - distance := by omega
      let byte := (out ++ done).getD (out.length - distance + done.length) 0
      have source : (out ++ done)[out.length + done.length - distance]? =
          some byte := by
        rw [← place]
        have inside : out.length - distance + done.length <
            (out ++ done).length := by
          rw [List.length_append]
          omega
        show _ = some ((out ++ done).getD _ 0)
        rw [List.getD_eq_getElem?_getD, List.getElem?_eq_getElem inside,
          Option.getD_some]
      have longer : Copies out distance (done ++ [byte]) := by
        refine ⟨back, within, fun i bound => ?_⟩
        rw [List.length_append, List.length_singleton] at bound
        rw [← List.append_assoc]
        by_cases newest : i = done.length
        · subst newest
          rw [List.getElem?_append_right (Nat.le_refl _), Nat.sub_self,
            List.getElem?_append_left (by rw [List.length_append]; omega),
            source]
          rfl
        · rw [List.getElem?_append_left (by omega),
            List.getElem?_append_left (by rw [List.length_append]; omega)]
          exact copies.repeats i (by omega)
      obtain ⟨copied, ran, length, whole⟩ := ih longer
      refine ⟨byte :: copied, ?_, by rw [List.length_cons, length], ?_⟩
      · rw [List.length_append, List.length_singleton, ← Nat.add_assoc,
          ← List.append_assoc, List.append_assoc done] at ran
        rw [copyLoop]
        exact ran
      · rwa [List.append_assoc] at whole

theorem copyBack_inv {out result : List UInt8} {distance len : Nat}
    (ran : copyBack distance len out = .ok result) :
    ∃ copied, result = out ++ copied ∧ copied.length = len ∧
      Copies out distance copied := by
  unfold copyBack at ran
  split at ran
  · cases ran
  · rename_i legal
    rw [not_or] at legal
    have none : Copies out distance [] :=
      ⟨Nat.pos_of_ne_zero legal.1, Nat.not_lt.mp legal.2,
        fun i bound => absurd bound (Nat.not_lt_zero _)⟩
    obtain ⟨copied, looped, length, copies⟩ := copyLoop_copies len none
    rw [List.length_nil, Nat.add_zero, List.append_nil] at looped
    rw [looped] at ran
    exact ⟨copied, (Except.ok.inj ran).symm, length, copies⟩

theorem zip_row (bases extras : List Nat)
    (same : extras.length = bases.length) {symbol : Nat} (known : symbol < bases.length) :
    (bases.zip extras)[symbol]? =
      some (bases.getD symbol 0, extras.getD symbol 0) := by
  have extra : symbol < extras.length := same.symm ▸ known
  rw [List.getElem?_zip_eq_some]
  simp only [List.getD_eq_getElem?_getD, List.getElem?_eq_getElem known,
    List.getElem?_eq_getElem extra, Option.getD_some, and_self]

theorem length_row_of {symbol : Nat} (known : symbol < LENGTH_BASE.length) :
    lengthRows[symbol]? =
      some (LENGTH_BASE.getD symbol 0, LENGTH_EXTRA.getD symbol 0) :=
  zip_row LENGTH_BASE LENGTH_EXTRA rfl known

theorem distance_row_of {symbol : Nat} (known : symbol < DIST_BASE.length) :
    distanceRows[symbol]? =
      some (DIST_BASE.getD symbol 0, DIST_EXTRA.getD symbol 0) :=
  zip_row DIST_BASE DIST_EXTRA rfl known

section

variable {buf : List UInt8} {reader next : BitReader} {bits : List Bool}

variable {out result : List UInt8} {litHuff distHuff : Huffman}

theorem inflateBlockData_inv {literals distances : List Nat}
    (litTable : Represents litHuff literals)
    (distTable : Represents distHuff distances) (rounds : Nat)
    (reading : Reading buf reader bits)
    (ran : inflateBlockData litHuff distHuff rounds reader out =
      .ok (next, result)) :
    ∃ data rest, bits = data ++ rest ∧
      BlockData literals distances out data result ∧ Reading buf next rest := by
  induction rounds generalizing reader bits out with
  | zero => cases ran
  | succ rounds ih =>
      rw [inflateBlockData] at ran
      obtain ⟨⟨sym, after⟩, decoded, ran⟩ := ok_of_bind ran
      obtain ⟨word, rest, rfl, code, following⟩ :=
        reading.decode_inv litTable decoded
      simp only at ran
      split at ran
      · rename_i small
        obtain ⟨data, others, rfl, inner, done⟩ := ih following ran
        have byte : (UInt8.ofNat sym).toNat = sym := by
          rw [UInt8.toNat_ofNat']
          omega
        refine ⟨word ++ data, others, (List.append_assoc _ _ _).symm,
          .literal (UInt8.ofNat sym) ?_ inner, done⟩
        rw [byte]
        exact code
      · split at ran
        · rename_i final
          subst final
          obtain ⟨rfl, rfl⟩ := Prod.mk.inj (Except.ok.inj ran)
          exact ⟨word, rest, rfl, .endOfBlock code, following⟩
        · obtain ⟨symbol, rfl⟩ : ∃ symbol, sym = 257 + symbol :=
            ⟨sym - 257, by omega⟩
          rw [Nat.add_sub_cancel_left] at ran
          split at ran
          · cases ran
          · rename_i known
            obtain ⟨⟨extra, afterExtra⟩, extraRead, ran⟩ := ok_of_bind ran
            obtain ⟨extraBits, rest, rfl, width, rfl, following⟩ :=
              following.bits_inv extraRead
            obtain ⟨⟨dsym, afterDistance⟩, decoded, ran⟩ := ok_of_bind ran
            obtain ⟨distanceWord, rest, rfl, distanceCode, following⟩ :=
              following.decode_inv distTable decoded
            simp only at ran
            split at ran
            · cases ran
            · rename_i knownDistance
              obtain ⟨⟨more, afterMore⟩, moreRead, ran⟩ := ok_of_bind ran
              obtain ⟨moreBits, rest, rfl, moreWidth, rfl, following⟩ :=
                following.bits_inv moreRead
              obtain ⟨out', copied, ran⟩ := ok_of_bind ran
              obtain ⟨copy, rfl, length, copies⟩ := copyBack_inv copied
              obtain ⟨data, others, rfl, inner, done⟩ := ih following ran
              refine ⟨word ++ (extraBits ++ (distanceWord ++
                (moreBits ++ data))), others, by simp, ?_, done⟩
              apply BlockData.copy code _ distanceCode _ copies length inner
              · rw [width]
                exact length_row_of (Nat.not_le.mp known)
              · rw [moreWidth]
                exact distance_row_of (Nat.not_le.mp knownDistance)

theorem Reading.number_inv {width value : Nat} (reading : Reading buf reader bits)
    (ran : reader.bits width = .ok (value, next)) :
    ∃ rest, bits = toBits width value ++ rest ∧ value < 2 ^ width ∧
      Reading buf next rest := by
  obtain ⟨word, rest, rfl, rfl, rfl, following⟩ := reading.bits_inv ran
  refine ⟨rest, ?_, ofBits_lt word, following⟩
  rw [toBits_ofBits]

theorem readCodeLengths_inv (order : List Nat) {clenLengths result : List Nat}
    (reading : Reading buf reader bits)
    (ran : readCodeLengths order clenLengths reader = .ok (result, next)) :
    ∃ sent rest, bits = sent.flatMap (toBits 3) ++ rest ∧
      sent.length = order.length ∧ (∀ length ∈ sent, length < 8) ∧
      result = placeLengths order sent clenLengths ∧ Reading buf next rest := by
  induction order generalizing reader bits clenLengths with
  | nil =>
      obtain ⟨rfl, rfl⟩ := Prod.mk.inj (Except.ok.inj ran)
      exact ⟨[], bits, rfl, rfl, by simp, rfl, reading⟩
  | cons symbol order ih =>
      rw [readCodeLengths] at ran
      obtain ⟨⟨length, after⟩, lengthRead, ran⟩ := ok_of_bind ran
      obtain ⟨rest, rfl, small, following⟩ := reading.number_inv lengthRead
      obtain ⟨sent, others, rfl, count, smaller, rfl, done⟩ := ih following ran
      refine ⟨length :: sent, others, by simp, by simp [count], ?_, rfl, done⟩
      intro other member
      rcases List.mem_cons.mp member with rfl | later
      · exact small
      · exact smaller other later

theorem readLengths_inv {code : List Nat} {clenHuff : Huffman}
    (table : Represents clenHuff code) (known : code.length = 19) {total : Nat}
    (rounds : Nat) {lengths result : List Nat}
    (within : lengths.length ≤ total)
    (enough : total ≤ lengths.length + rounds)
    (reading : Reading buf reader bits)
    (ran : readLengths clenHuff total rounds lengths reader =
      .ok (result, next)) :
    ∃ data rest, bits = data ++ rest ∧
      ClippedLengths code total lengths data result ∧
      Reading buf next rest := by
  induction rounds generalizing reader bits lengths with
  | zero =>
      obtain ⟨rfl, rfl⟩ := Prod.mk.inj (Except.ok.inj ran)
      exact ⟨[], bits, rfl, .complete (by omega), reading⟩
  | succ rounds ih =>
      by_cases missing : lengths.length < total
      · have ran' := ran
        rw [readLengths, if_pos missing] at ran
        obtain ⟨⟨sym, after⟩, decoded, ran⟩ := ok_of_bind ran
        obtain ⟨word, rest, rfl, assigned, following⟩ :=
          reading.decode_inv table decoded
        have bounded : sym < 19 := by
          rw [← known]
          exact (List.getElem?_eq_some_iff.mp assigned.assigned).1
        simp only at ran
        by_cases small : sym < 16
        · rw [if_pos small] at ran
          obtain ⟨data, others, rfl, sequence, done⟩ := ih
            (by rw [List.length_append, List.length_singleton]; omega)
            (by rw [List.length_append, List.length_singleton]; omega)
            following ran
          exact ⟨word ++ data, others, (List.append_assoc _ _ _).symm,
            .length sym small assigned missing sequence, done⟩
        · -- the other symbols repeat a value
          have repeated : ∃ width least value,
              Repeat lengths sym width least value := by
            rw [if_neg small] at ran
            by_cases last : sym = 16
            · subst last
              cases latest : lengths.getLast? with
              | none => simp [latest] at ran
              | some value => exact ⟨2, 3, value, .previous latest⟩
            · by_cases zeros : sym = 17
              · subst zeros
                exact ⟨3, 3, 0, .zeros⟩
              · obtain rfl : sym = 18 := by omega
                exact ⟨7, 11, 0, .manyZeros⟩
          obtain ⟨width, least, value, kind⟩ := repeated
          rw [readLengths_run kind missing decoded] at ran'
          obtain ⟨⟨extra, afterExtra⟩, extraRead, ran'⟩ := ok_of_bind ran'
          obtain ⟨extraBits, rest, rfl, size, rfl, following⟩ :=
            following.bits_inv extraRead
          simp only at ran'
          rw [Nat.add_comm _ least, repeatLength] at ran'
          have positive : 0 < least := by cases kind <;> omega
          obtain ⟨data, others, rfl, sequence, done⟩ := ih
            (by rw [List.length_append, List.length_replicate]; omega)
            (by rw [List.length_append, List.length_replicate]; omega)
            following ran'
          exact ⟨word ++ (extraBits ++ data), others, by simp,
            .run kind assigned size missing sequence, done⟩
      · rw [readLengths, if_neg missing] at ran
        obtain ⟨rfl, rfl⟩ := Prod.mk.inj (Except.ok.inj ran)
        exact ⟨[], bits, rfl, .complete (by omega), reading⟩

theorem ClippedLengths_length {code : List Nat} {total : Nat}
    {lengths result : List Nat} {data : List Bool}
    (sequence : ClippedLengths code total lengths data result) :
    result.length = total := by
  induction sequence with
  | complete count => exact count
  | length _ _ _ _ _ ih => exact ih
  | run _ _ _ _ _ ih => exact ih

theorem inflateDynamicTables_inv (reading : Reading buf reader bits)
    (ran : inflateDynamicTables reader = .ok (litHuff, distHuff, next)) :
    ∃ header rest literals distances, bits = header ++ rest ∧
      ClippedTables header literals distances ∧
      Represents litHuff literals ∧ Represents distHuff distances ∧
      Reading buf next rest := by
  unfold inflateDynamicTables at ran
  obtain ⟨⟨hlitBits, reader₁⟩, hlitRead, ran⟩ := ok_of_bind ran
  obtain ⟨rest, rfl, hlitSmall, following⟩ := reading.number_inv hlitRead
  obtain ⟨⟨hdistBits, reader₂⟩, hdistRead, ran⟩ := ok_of_bind ran
  obtain ⟨rest, rfl, hdistSmall, following⟩ := following.number_inv hdistRead
  obtain ⟨⟨hclenBits, reader₃⟩, hclenRead, ran⟩ := ok_of_bind ran
  obtain ⟨rest, rfl, hclenSmall, following⟩ := following.number_inv hclenRead
  simp only at ran
  split at ran
  · cases ran
  rename_i range
  obtain ⟨⟨clenLengths, reader₄⟩, clenRead, ran⟩ := ok_of_bind ran
  obtain ⟨sent, rest, rfl, count, small, placed, following⟩ :=
    readCodeLengths_inv _ following clenRead
  have size : sent.length = hclenBits + 4 := by
    rw [count, List.length_take]
    have order : CLEN_ORDER.length = 19 := rfl
    omega
  have many : sent.length ≤ 19 := by omega
  rw [← size, placeLengths_eq many] at placed
  subst placed
  obtain ⟨clenHuff, clenBuilt, ran⟩ := ok_of_bind ran
  obtain ⟨built, builtEq, clenTable⟩ :=
    buildHuffman_represents (codeLengthLengths_bounded small)
  obtain rfl : built = clenHuff :=
    Except.ok.inj (builtEq.symm.trans clenBuilt)
  obtain ⟨⟨lengths, reader₅⟩, lengthsRead, ran⟩ := ok_of_bind ran
  obtain ⟨data, rest, rfl, sequence, following⟩ := readLengths_inv clenTable
    (by simp [codeLengthLengths]) _ (Nat.zero_le _) (Nat.le_add_left _ _)
    following lengthsRead
  have total := ClippedLengths_length sequence
  have bounded : ∀ length ∈ lengths, length ≤ MAX_BITS :=
    ClippedLengths_bounded sequence (by simp)
  obtain ⟨lit, litBuilt, ran⟩ := ok_of_bind ran
  obtain ⟨dist, distBuilt, ran⟩ := ok_of_bind ran
  simp only [pure, Except.pure, Except.ok.injEq, Prod.mk.injEq] at ran
  obtain ⟨rfl, rfl, rfl⟩ := ran
  simp only [← total, List.take_length] at distBuilt
  obtain ⟨builtLit, litEq, litTable⟩ := buildHuffman_represents
    (fun length member => bounded length
      (List.mem_of_mem_take (i := hlitBits + 257) member))
  obtain rfl : builtLit = lit := Except.ok.inj (litEq.symm.trans litBuilt)
  obtain ⟨builtDist, distEq, distTable⟩ := buildHuffman_represents
    (fun length member => bounded length
      (List.mem_of_mem_drop (i := hlitBits + 257) member))
  obtain rfl : builtDist = dist := Except.ok.inj (distEq.symm.trans distBuilt)
  have litLength : (lengths.take (hlitBits + 257)).length =
      hlitBits + 257 := by
    rw [List.length_take]
    omega
  have distLength : (lengths.drop (hlitBits + 257)).length =
      hdistBits + 1 := by
    rw [List.length_drop]
    omega
  refine ⟨toBits 5 hlitBits ++ (toBits 5 hdistBits ++ (toBits 4 hclenBits ++
    (sent.flatMap (toBits 3) ++ data))), rest, _, _, by simp, ⟨sent, data, ?_⟩,
    litTable, distTable, following⟩
  rw [litLength, distLength, size, List.take_append_drop]
  have positive : 1 ≤ hdistBits + 1 := Nat.le_add_left 1 hdistBits
  refine ⟨by omega, by omega, positive, by omega, by omega, by omega, small,
    sequence, ?_⟩
  simp only [Nat.add_sub_cancel]

theorem readByteRaw_inv {pos : Nat} {byte : UInt8}
    (ran : (BitReader.new buf pos).readByteRaw = .ok (byte, next)) :
    buf.drop pos = byte :: buf.drop (pos + 1) ∧
      next = BitReader.new buf (pos + 1) := by
  unfold BitReader.readByteRaw at ran
  split at ran
  · cases ran
  · rename_i found byteFound
    obtain ⟨rfl, rfl⟩ := Prod.mk.inj (Except.ok.inj ran)
    obtain ⟨inside, byteEq⟩ := List.getElem?_eq_some_iff.mp byteFound
    refine ⟨?_, rfl⟩
    rw [← byteEq]
    exact List.drop_eq_getElem_cons inside

theorem readStored_inv (len : Nat) {pos : Nat}
    (ran : readStored len (BitReader.new buf pos) out = .ok (next, result)) :
    ∃ content, content.length = len ∧ result = out ++ content ∧
      buf.drop pos = content ++ buf.drop (pos + len) ∧
      next = BitReader.new buf (pos + len) := by
  induction len generalizing pos out with
  | zero =>
      obtain ⟨rfl, rfl⟩ := Prod.mk.inj (Except.ok.inj ran)
      exact ⟨[], rfl, (List.append_nil _).symm, rfl, rfl⟩
  | succ len ih =>
      rw [readStored] at ran
      obtain ⟨⟨byte, after⟩, read, ran⟩ := ok_of_bind ran
      obtain ⟨dropped, rfl⟩ := readByteRaw_inv read
      obtain ⟨content, length, rfl, rest, rfl⟩ := ih ran
      have place : pos + 1 + len = pos + (len + 1) := by omega
      refine ⟨byte :: content, by rw [List.length_cons, length], by simp, ?_,
        by rw [place]⟩
      rw [dropped, rest, place, List.cons_append]

theorem xor_ones_inv {value other : Nat} (small : value < 65536)
    (checked : ¬value ^^^ 0xffff ≠ other) : other = 65535 - value := by
  rw [← xor_ones small]
  exact (not_ne_iff.mp checked).symm

theorem or_bytes (low high : UInt8) :
    low.toNat ||| (high.toNat <<< 8) = low.toNat + 256 * high.toNat := by
  have small : low.toNat < 2 ^ 8 := low.toNat_lt
  rw [or_shiftLeft_of_lt high.toNat small]
  omega

theorem bitsOf_two (low high : UInt8) :
    bitsOf [low, high] = toBits 16 (low.toNat + 256 * high.toNat) := by
  have lowSmall := low.toNat_lt
  have highSmall := high.toNat_lt
  have first : (low.toNat + 256 * high.toNat) % 256 = low.toNat := by omega
  have second : (low.toNat + 256 * high.toNat) / 256 = high.toNat := by omega
  rw [toBits_sixteen (by omega), first, second, UInt8.ofNat_toNat,
    UInt8.ofNat_toNat]

theorem inflateStored_inv (reading : Reading buf reader bits)
    (ran : inflateStored reader out = .ok (next, result)) :
    ∃ padding content rest,
      bits = padding ++ (toBits 16 content.length ++
        (toBits 16 (65535 - content.length) ++ (bitsOf content ++ rest))) ∧
      padding.length = reader.bitCnt ∧ content.length < 65536 ∧
      result = out ++ content ∧ Reading buf next rest := by
  have split := reading.rest
  rw [← split] at reading
  obtain ⟨skipped, _⟩ := reading.alignToByte (length_toBits _ _)
  unfold inflateStored at ran
  rw [skipped] at ran
  obtain ⟨⟨len0, reader₀⟩, read₀, ran⟩ := ok_of_bind ran
  obtain ⟨dropped₀, rfl⟩ := readByteRaw_inv read₀
  obtain ⟨⟨len1, reader₁⟩, read₁, ran⟩ := ok_of_bind ran
  obtain ⟨dropped₁, rfl⟩ := readByteRaw_inv read₁
  obtain ⟨⟨nlen0, reader₂⟩, read₂, ran⟩ := ok_of_bind ran
  obtain ⟨dropped₂, rfl⟩ := readByteRaw_inv read₂
  obtain ⟨⟨nlen1, reader₃⟩, read₃, ran⟩ := ok_of_bind ran
  obtain ⟨dropped₃, rfl⟩ := readByteRaw_inv read₃
  simp only [or_bytes] at ran
  split at ran
  · cases ran
  rename_i checked
  obtain ⟨content, length, rfl, rest, rfl⟩ := readStored_inv _ ran
  have small : content.length < 65536 := by
    have := len0.toNat_lt
    have := len1.toNat_lt
    omega
  rw [← length] at checked
  have complement := xor_ones_inv small checked
  let stop := reader.pos + 1 + 1 + 1 + 1 + (len0.toNat + 256 * len1.toNat)
  refine ⟨toBits reader.bitCnt reader.bitBuf, content,
    bitsOf (buf.drop stop), ?_, length_toBits _ _, small, rfl, ?_⟩
  · have pieces : bitsOf (buf.drop reader.pos) =
        bitsOf [len0, len1] ++ (bitsOf [nlen0, nlen1] ++
          (bitsOf content ++ bitsOf (buf.drop stop))) := by
      rw [dropped₀, dropped₁, dropped₂, dropped₃, rest]
      simp [stop]
    rw [← split, pieces, bitsOf_two, bitsOf_two, complement, length]
  · apply Reading.start
    have total := congrArg List.length rest
    have some₀ := congrArg List.length dropped₀
    have some₁ := congrArg List.length dropped₁
    have some₂ := congrArg List.length dropped₂
    have some₃ := congrArg List.length dropped₃
    simp only [List.length_drop, List.length_append, List.length_cons]
      at total some₀ some₁ some₂ some₃
    omega

theorem inflateBlock_inv {type : Nat} {out result : List UInt8}
    (reading : Reading buf reader bits)
    (ran : inflateBlock type reader out = .ok (next, result))
    {position : Nat} (whole : (position + 2 + bits.length) % 8 = 0)
    (small : type < 4) :
    ∃ data rest, bits = data ++ rest ∧
      BlockUnder ClippedTables position out (toBits 2 type ++ data) result ∧
      Reading buf next rest := by
  obtain rfl | rfl | rfl | rfl : type = 0 ∨ type = 1 ∨ type = 2 ∨ type = 3 := by
    omega
  · have word : toBits 2 0 = [false, false] := by decide
    obtain ⟨padding, content, rest, split, aligned, short, rfl, following⟩ :=
      inflateStored_inv reading ran
    have block : BlockUnder ClippedTables position out
        ([false, false] ++ (padding ++ (toBits 16 content.length ++
          (toBits 16 (65535 - content.length) ++ bitsOf content))))
        (out ++ content) := by
      apply BlockUnder.stored _ short
      rw [aligned, reading.bitCnt_eq, toBoundary]
      omega
    rw [word]
    exact ⟨_, rest, by simp [split], block, following⟩
  · have word : toBits 2 1 = [true, false] := by decide
    obtain ⟨litHuff, distHuff, litBuilt, distBuilt, litTable, distTable⟩ :=
      fixed_tables
    simp only [inflateBlock] at ran
    obtain ⟨lit, litRead, ran⟩ := ok_of_bind ran
    obtain ⟨dist, distRead, ran⟩ := ok_of_bind ran
    obtain rfl : litHuff = lit := Except.ok.inj (litBuilt.symm.trans litRead)
    obtain rfl : distHuff = dist :=
      Except.ok.inj (distBuilt.symm.trans distRead)
    obtain ⟨data, rest, rfl, block, following⟩ :=
      inflateBlockData_inv litTable distTable _ reading ran
    have coded : BlockData fixedLiterals fixedDistances out data result :=
      blockData_replicate (le_refl 30) (by decide) (by decide) block
    rw [word]
    exact ⟨data, rest, rfl, .fixed coded, following⟩
  · have word : toBits 2 2 = [false, true] := by decide
    simp only [inflateBlock] at ran
    obtain ⟨⟨litHuff, distHuff, after⟩, tablesRead, ran⟩ := ok_of_bind ran
    obtain ⟨header, rest, literals, distances, rfl, tables, litTable,
      distTable, following⟩ := inflateDynamicTables_inv reading tablesRead
    obtain ⟨data, rest, rfl, block, following⟩ :=
      inflateBlockData_inv litTable distTable _ following ran
    rw [word]
    exact ⟨header ++ data, rest, (List.append_assoc _ _ _).symm,
      .dynamic tables block, following⟩
  · cases ran

theorem inflateBlocks_inv (rounds : Nat) {out result : List UInt8}
    (reading : Reading buf reader bits)
    (ran : inflateBlocks rounds reader out = .ok (next, result))
    {position : Nat} (whole : (position + bits.length) % 8 = 0) :
    ∃ data rest, bits = data ++ rest ∧
      BlocksUnder ClippedTables position out data result ∧
      Reading buf next rest := by
  induction rounds generalizing reader bits out position with
  | zero => cases ran
  | succ rounds ih =>
      rw [inflateBlocks] at ran
      obtain ⟨⟨final, afterFinal⟩, finalRead, ran⟩ := ok_of_bind ran
      obtain ⟨last, rest, rfl, rfl, following⟩ := reading.bit_inv finalRead
      obtain ⟨⟨type, afterType⟩, typeRead, ran⟩ := ok_of_bind ran
      obtain ⟨rest, rfl, small, following⟩ := following.number_inv typeRead
      obtain ⟨⟨afterBlock, middle⟩, inflated, ran⟩ := ok_of_bind ran
      simp only [List.length_cons, List.length_append, length_toBits] at whole
      obtain ⟨data, rest, rfl, block, following⟩ :=
        @inflateBlock_inv _ _ _ _ type out middle following inflated
          (position + 1) (by omega) small
      simp only at ran
      cases last with
      | true =>
          rw [if_neg (by decide)] at ran
          obtain ⟨rfl, rfl⟩ := Prod.mk.inj (Except.ok.inj ran)
          exact ⟨true :: (toBits 2 type ++ data), rest, by simp, .last block,
            following⟩
      | false =>
          rw [if_pos (show false.toNat = 0 from rfl)] at ran
          rw [List.length_append] at whole
          have boundary : (position + 1 + (toBits 2 type ++ data).length +
              rest.length) % 8 = 0 := by
            rw [List.length_append, length_toBits]
            omega
          obtain ⟨others, rest, rfl, blocks, done⟩ := ih following ran boundary
          exact ⟨false :: ((toBits 2 type ++ data) ++ others), rest, by simp,
            .more block blocks, done⟩

theorem inflateBlockData_empty (litHuff distHuff : Huffman) (rounds : Nat)
    (out : List UInt8) (reading : Reading buf reader []) :
    inflateBlockData litHuff distHuff rounds reader out =
      .error .unexpectedEnd := by
  cases rounds with
  | zero => rfl
  | succ rounds =>
      rw [inflateBlockData, reading.decode_empty]
      simp only [bind, Except.bind]

theorem bind_congr_ok {Error Value Result : Type}
    {value : Except Error Value} {left right : Value → Except Error Result}
    (same : ∀ ok, value = .ok ok → left ok = right ok) :
    value >>= left = value >>= right := by
  cases value with
  | error error => rfl
  | ok ok => exact same ok rfl

/-- The loop over the symbols of a block never needs more rounds than there are
bits. -/
theorem inflateBlockData_rounds {literals distances : List Nat}
    (litTable : Represents litHuff literals)
    (distTable : Represents distHuff distances) (rounds more : Nat)
    (out : List UInt8) (reading : Reading buf reader bits)
    (enough : bits.length ≤ rounds) (alsoEnough : bits.length ≤ more) :
    inflateBlockData litHuff distHuff rounds reader out =
      inflateBlockData litHuff distHuff more reader out := by
  induction rounds generalizing more reader bits out with
  | zero =>
      obtain rfl : bits = [] := List.length_eq_zero_iff.mp (by omega)
      rw [inflateBlockData_empty litHuff distHuff _ out reading,
        inflateBlockData_empty litHuff distHuff _ out reading]
  | succ rounds ih =>
      cases more with
      | zero =>
          obtain rfl : bits = [] := List.length_eq_zero_iff.mp (by omega)
          rw [inflateBlockData_empty litHuff distHuff _ out reading,
            inflateBlockData_empty litHuff distHuff _ out reading]
      | succ more =>
          rw [inflateBlockData, inflateBlockData]
          apply bind_congr_ok
          rintro ⟨sym, after⟩ decoded
          dsimp only
          obtain ⟨word, rest, rfl, code, following⟩ :=
            reading.decode_inv litTable decoded
          have positive := code.length_pos
          simp only [List.length_append] at enough alsoEnough
          by_cases small : sym < 256
          · rw [if_pos small, if_pos small]
            exact ih more _ following (by omega) (by omega)
          rw [if_neg small, if_neg small]
          by_cases final : sym = 256
          · rw [if_pos final, if_pos final]
          rw [if_neg final, if_neg final]
          by_cases known : LENGTH_BASE.length ≤ sym - 257
          · rw [if_pos known, if_pos known]
            apply bind_congr_ok
            rintro _ ⟨⟩
          rw [if_neg known, if_neg known]
          apply bind_congr_ok
          rintro ⟨extra, afterExtra⟩ extraRead
          obtain ⟨extraBits, rest, rfl, _, _, following⟩ :=
            following.bits_inv extraRead
          apply bind_congr_ok
          rintro ⟨dsym, afterDistance⟩ distance
          obtain ⟨distanceWord, rest, rfl, _, following⟩ :=
            following.decode_inv distTable distance
          dsimp only
          by_cases known : DIST_BASE.length ≤ dsym
          · rw [if_pos known, if_pos known]
            apply bind_congr_ok
            rintro _ ⟨⟩
          rw [if_neg known, if_neg known]
          apply bind_congr_ok
          rintro ⟨distanceExtra, afterMore⟩ moreRead
          obtain ⟨moreBits, rest, rfl, _, _, following⟩ :=
            following.bits_inv moreRead
          simp only [List.length_append] at enough alsoEnough
          apply bind_congr_ok
          intro out _
          exact ih more _ following (by omega) (by omega)

theorem inflateBlocks_rounds (rounds more : Nat) (out : List UInt8)
    (reading : Reading buf reader bits) (enough : bits.length ≤ rounds)
    (alsoEnough : bits.length ≤ more) :
    inflateBlocks rounds reader out = inflateBlocks more reader out := by
  have ended : ∀ {reader : BitReader} (rounds : Nat) (out : List UInt8),
      Reading buf reader [] →
      inflateBlocks rounds reader out = .error .unexpectedEnd := by
    intro reader rounds out reading
    cases rounds with
    | zero => rfl
    | succ rounds =>
        rw [inflateBlocks, reading.bits_short Nat.one_pos]
        simp only [bind, Except.bind]
  induction rounds generalizing more reader bits out with
  | zero =>
      obtain rfl : bits = [] := List.length_eq_zero_iff.mp (by omega)
      rw [ended _ out reading, ended _ out reading]
  | succ rounds ih =>
      cases more with
      | zero =>
          obtain rfl : bits = [] := List.length_eq_zero_iff.mp (by omega)
          rw [ended _ out reading, ended _ out reading]
      | succ more =>
          rw [inflateBlocks, inflateBlocks]
          apply bind_congr_ok
          rintro ⟨final, afterFinal⟩ finalRead
          obtain ⟨bit, rest, rfl, _, following⟩ := reading.bit_inv finalRead
          apply bind_congr_ok
          rintro ⟨type, afterType⟩ typeRead
          obtain ⟨rest, rfl, small, following⟩ := following.number_inv typeRead
          apply bind_congr_ok
          rintro ⟨afterBlock, middle⟩ inflated
          dsimp only
          obtain ⟨data, rest, rfl, _, following⟩ :=
            @inflateBlock_inv _ _ _ _ type out middle following
              inflated (8 * rest.length + 6 - rest.length) (by omega) small
          simp only [List.length_cons, List.length_append] at enough alsoEnough
          by_cases continued : final = 0
          · rw [if_pos continued, if_pos continued]
            exact ih more _ following (by omega) (by omega)
          · rw [if_neg continued, if_neg continued]

end

end Takos.Packs
