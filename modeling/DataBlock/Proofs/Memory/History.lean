import DataBlock.Transport.Memory
import Mathlib.Data.List.Induction
/-!
# Data blocks as their writes

Whatever is done to data blocks in memory, what can be read of them is told by
the writes alone: a data block is there once it has been written, it reaches as
far as any write to it, and each byte is that of the last write over it, or zero
if there is none.
-/

namespace DataBlock.Memory

inductive Op where
  | write (block : UInt16) (offset : UInt32) (bytes : Bytes)
  | connect
  | disconnect
  | read (block : UInt16) (span : Span)
  | readMany (spans : List (UInt16 × Span))
  deriving DecidableEq, Repr

def apply (m : Memory) : Op → Memory
  | .write block offset bytes => m.write block offset bytes
  | .connect => (transport.connect m).2
  | .disconnect => (transport.disconnect m).2
  | .read block span => (transport.read block span m).2
  | .readMany spans => (transport.readMany spans m).2

def after (history : List Op) : Memory :=
  history.foldl apply empty

theorem after_concat (history : List Op) (op : Op) :
    after (history ++ [op]) = (after history).apply op := by
  simp [after]

/-! ## What a history tells -/

structure Write where
  offset : Nat
  bytes : Bytes
  deriving DecidableEq, Repr

def Write.stop (w : Write) : Nat := w.offset + w.bytes.length

def Write.Covers (w : Write) (i : Nat) : Prop :=
  w.offset ≤ i ∧ i < w.stop

def Op.writeTo? (block : UInt16) : Op → Option Write
  | .write other offset bytes => if other = block then some ⟨offset.toNat, bytes⟩ else none
  | _ => none

/-- The writes to a data block, the last one at the end. -/
def writes (block : UInt16) (history : List Op) : List Write :=
  history.filterMap (Op.writeTo? block)

/-- The greatest offset at which one of the writes stops. -/
def extent (ws : List Write) : Nat :=
  ws.foldl (fun reach w => max reach w.stop) 0

/-- The byte at an offset: that of the last write over it, or zero without one. -/
inductive Stored (ws : List Write) (i : Nat) : UInt8 → Prop where
  | written (earlier later : List Write) (w : Write) (byte : UInt8)
      (hws : ws = earlier ++ w :: later) (hoffset : w.offset ≤ i)
      (hbyte : w.bytes[i - w.offset]? = some byte) (hlater : ∀ w' ∈ later, ¬ w'.Covers i) :
      Stored ws i byte
  | unwritten (h : ∀ w ∈ ws, ¬ w.Covers i) : Stored ws i 0

def online (history : List Op) : Bool :=
  history.foldl
    (fun on op =>
      match op with
      | .connect => true
      | .disconnect => false
      | _ => on)
    false

def Op.isFetch : Op → Bool
  | .read .. | .readMany _ => true
  | _ => false

/-- How many reads of a history were made with a connection. -/
def fetches (history : List Op) : Nat :=
  (List.range history.length).countP fun i =>
    history[i]?.any Op.isFetch && online (history.take i)

theorem writes_concat (block : UInt16) (history : List Op) (op : Op) :
    writes block (history ++ [op]) = writes block history ++ (op.writeTo? block).toList := by
  rw [writes, List.filterMap_append]
  cases h : op.writeTo? block <;> simp [writes, h]

theorem extent_concat (ws : List Write) (w : Write) :
    extent (ws ++ [w]) = max (extent ws) w.stop := by
  simp [extent]

theorem stop_le_extent {ws : List Write} {w : Write} (h : w ∈ ws) : w.stop ≤ extent ws := by
  induction ws using List.reverseRecOn with
  | nil => simp at h
  | append_singleton ws last ih =>
      rw [extent_concat]
      rcases List.mem_append.1 h with hmem | hmem
      · exact Nat.le_trans (ih hmem) (Nat.le_max_left _ _)
      · rw [List.mem_singleton.1 hmem]
        exact Nat.le_max_right _ _

theorem online_concat (history : List Op) (op : Op) :
    online (history ++ [op]) =
      match op with
      | .connect => true
      | .disconnect => false
      | _ => online history := by
  simp [online]

theorem fetches_concat (history : List Op) (op : Op) :
    fetches (history ++ [op]) =
      fetches history + if op.isFetch && online history then 1 else 0 := by
  rw [fetches, List.length_append, List.length_singleton, List.range_succ, List.countP_append]
  congr 1
  · apply List.countP_congr
    intro i hi
    have hlt := List.mem_range.1 hi
    rw [List.getElem?_append_left hlt, List.take_append_of_le_length (Nat.le_of_lt hlt)]
  · simp

/-! ## The bytes of an image -/

theorem Write.covers_of_getElem? {w : Write} {i : Nat} {byte : UInt8} (hoffset : w.offset ≤ i)
    (hbyte : w.bytes[i - w.offset]? = some byte) : w.Covers i := by
  obtain ⟨hlt, -⟩ := List.getElem?_eq_some_iff.1 hbyte
  refine ⟨hoffset, ?_⟩
  unfold stop
  omega

/-- A grown image has zeros after its own bytes. -/
theorem getElem?_grow (image : Bytes) (stop i : Nat) :
    (image ++ List.replicate (stop - image.length) 0)[i]? =
      if i < max image.length stop then some (image[i]?.getD 0) else none := by
  by_cases hown : i < image.length
  · rw [List.getElem?_append_left hown, if_pos (by omega), List.getElem?_eq_getElem hown]
    rfl
  · rw [List.getElem?_append_right (by omega), List.getElem?_replicate,
      List.getElem?_eq_none (Nat.le_of_not_lt hown)]
    by_cases hstop : i < stop
    · rw [if_pos (by omega), if_pos (by omega)]
      rfl
    · rw [if_neg (by omega), if_neg (by omega)]

theorem getElem?_overwrite (image : Bytes) (offset : Nat) (bytes : Bytes) (i : Nat) :
    (overwrite image offset bytes)[i]? =
      if offset ≤ i ∧ i < offset + bytes.length then bytes[i - offset]?
      else if i < max image.length (offset + bytes.length) then some (image[i]?.getD 0)
      else none := by
  rw [← getElem?_grow]
  unfold overwrite
  simp only [List.append_assoc]
  generalize hgrown :
    image ++ List.replicate (offset + bytes.length - image.length) 0 = grown
  have hlength : (grown.take offset).length = offset := by
    rw [← hgrown, List.length_take, List.length_append, List.length_replicate]
    omega
  by_cases hbefore : i < offset
  · rw [if_neg (by omega), List.getElem?_append_left (by omega), List.getElem?_take_of_lt hbefore]
  · rw [List.getElem?_append_right (by omega), hlength]
    by_cases hwithin : i < offset + bytes.length
    · rw [if_pos (by omega), List.getElem?_append_left (by omega)]
    · rw [if_neg (by omega), List.getElem?_append_right (by omega), List.getElem?_drop]
      congr 1
      omega

/-! ## Stored bytes -/

namespace Stored

variable {ws : List Write} {w : Write} {i : Nat} {byte : UInt8}

theorem of_extent_le (h : extent ws ≤ i) : Stored ws i 0 := by
  apply unwritten
  intro w hw hcovers
  have hstop := stop_le_extent hw
  have hlt := hcovers.2
  omega

theorem concat_of_covers (hoffset : w.offset ≤ i) (hbyte : w.bytes[i - w.offset]? = some byte) :
    Stored (ws ++ [w]) i byte :=
  written ws [] w byte rfl hoffset hbyte (by simp)

theorem concat_of_not_covers (h : Stored ws i byte) (hw : ¬ w.Covers i) :
    Stored (ws ++ [w]) i byte := by
  have hkeep : ∀ others : List Write, (∀ other ∈ others, ¬ other.Covers i) →
      ∀ other ∈ others ++ [w], ¬ other.Covers i := by
    intro others hothers other hother
    rcases List.mem_append.1 hother with hmem | hmem
    · exact hothers other hmem
    · rw [List.mem_singleton.1 hmem]
      exact hw
  cases h with
  | written earlier later last byte hws hoffset hbyte hlater =>
      exact written earlier (later ++ [w]) last byte (by simp [hws]) hoffset hbyte
        (hkeep later hlater)
  | unwritten hnone => exact unwritten (hkeep ws hnone)

/-- A write settles the bytes it covers, and no others. -/
theorem of_concat (h : Stored (ws ++ [w]) i byte) :
    w.Covers i ∧ w.bytes[i - w.offset]? = some byte ∨ ¬ w.Covers i ∧ Stored ws i byte := by
  cases h with
  | unwritten hnone =>
      right
      refine ⟨hnone w (by simp), unwritten ?_⟩
      intro other hother
      exact hnone other (List.mem_append_left _ hother)
  | written earlier later last byte hws hoffset hbyte hlater =>
      rcases List.eq_nil_or_concat later with rfl | ⟨later, w', rfl⟩
      · obtain ⟨-, hlast⟩ := List.append_inj' hws rfl
        cases hlast
        exact .inl ⟨Write.covers_of_getElem? hoffset hbyte, hbyte⟩
      · rw [List.concat_eq_append, ← List.cons_append, ← List.append_assoc] at hws
        obtain ⟨hbefore, hlast⟩ := List.append_inj' hws rfl
        cases hlast
        right
        refine ⟨hlater w (by simp), written earlier later last byte hbefore hoffset hbyte ?_⟩
        intro other hother
        exact hlater other (by simp [hother])

/-- There is one byte at an offset. -/
theorem unique {byte' : UInt8} (h : Stored ws i byte) (h' : Stored ws i byte') :
    byte = byte' := by
  induction ws using List.reverseRecOn with
  | nil =>
      cases h with
      | written earlier later w byte hws => simp at hws
      | unwritten =>
          cases h' with
          | written earlier later w byte hws => simp at hws
          | unwritten => rfl
  | append_singleton ws w ih =>
      rcases h.of_concat with ⟨hcovers, hbyte⟩ | ⟨hcovers, hstored⟩
      · rcases h'.of_concat with ⟨-, hbyte'⟩ | ⟨hnot, -⟩
        · rw [hbyte, Option.some.injEq] at hbyte'
          exact hbyte'
        · exact absurd hcovers hnot
      · rcases h'.of_concat with ⟨hcovers', -⟩ | ⟨-, hstored'⟩
        · exact absurd hcovers' hcovers
        · exact ih hstored hstored'

end Stored

/-! ## What every operation preserves -/

/-- The image of a data block, if there is one, is what its writes tell. -/
inductive Images (ws : List Write) : Option Bytes → Prop where
  | missing (h : ws = []) : Images ws none
  | image (bytes : Bytes) (hne : ws ≠ []) (hlength : bytes.length = extent ws)
      (hstored : ∀ i byte, bytes[i]? = some byte → Stored ws i byte) : Images ws (some bytes)

/-- A byte of an image before a write, where zeros stand for bytes to come. -/
theorem Images.stored_getD {ws : List Write} {image : Option Bytes} (h : Images ws image)
    (i : Nat) : Stored ws i ((image.getD [])[i]?.getD 0) := by
  cases h with
  | missing hnil =>
      apply Stored.unwritten
      simp [hnil]
  | image bytes hne hlength hstored =>
      change Stored ws i (bytes[i]?.getD 0)
      cases hbyte : bytes[i]? with
      | some byte => exact hstored i byte hbyte
      | none =>
          apply Stored.of_extent_le
          rw [← hlength]
          exact List.getElem?_eq_none_iff.1 hbyte

theorem Images.length_getD {ws : List Write} {image : Option Bytes} (h : Images ws image) :
    (image.getD []).length = extent ws := by
  cases h with
  | missing hnil =>
      rw [hnil]
      rfl
  | image bytes hne hlength hstored => exact hlength

theorem Images.write {ws : List Write} {image : Option Bytes} (h : Images ws image) (w : Write) :
    Images (ws ++ [w]) (some (overwrite (image.getD []) w.offset w.bytes)) := by
  apply Images.image
  · simp
  · rw [length_overwrite, extent_concat, h.length_getD]
    rfl
  · intro i byte hbyte
    rw [getElem?_overwrite] at hbyte
    split at hbyte
    · next hcovers => exact .concat_of_covers hcovers.1 hbyte
    · next hcovers =>
      split at hbyte
      · rw [← Option.some.inj hbyte]
        exact (h.stored_getD i).concat_of_not_covers hcovers
      · cases hbyte

structure Follows (m : Memory) (history : List Op) : Prop where
  images : ∀ block, Images (writes block history) (m.blocks block)
  connected : m.connected = online history
  roundTrips : m.roundTrips = fetches history

theorem follows_empty : Follows empty [] where
  images _ := .missing rfl
  connected := rfl
  roundTrips := rfl

/-- Only a write changes a data block, and only its own. -/
theorem blocks_apply (m : Memory) (op : Op) (block : UInt16) :
    (m.apply op).blocks block =
      match op.writeTo? block with
      | some w => some (overwrite ((m.blocks block).getD []) w.offset w.bytes)
      | none => m.blocks block := by
  cases op with
  | connect | disconnect => rfl
  | read other span | readMany spans =>
      simp only [apply, transport, roundTrip, Op.writeTo?]
      split <;> rfl
  | write other offset bytes =>
      by_cases heq : other = block
      · subst heq
        simp [apply, Op.writeTo?, blocks_write_self]
      · simp [apply, Op.writeTo?, heq, blocks_write_of_ne (Ne.symm heq)]

theorem connected_apply (m : Memory) (op : Op) :
    (m.apply op).connected =
      match op with
      | .connect => true
      | .disconnect => false
      | _ => m.connected := by
  cases op with
  | write block offset bytes | connect | disconnect => rfl
  | read block span | readMany spans =>
      simp only [apply, transport, roundTrip]
      split <;> rfl

theorem roundTrips_apply (m : Memory) (op : Op) :
    (m.apply op).roundTrips = m.roundTrips + if op.isFetch && m.connected then 1 else 0 := by
  cases op with
  | write block offset bytes | connect | disconnect => rfl
  | read block span | readMany spans =>
      simp only [apply, transport, roundTrip, Op.isFetch, Bool.true_and]
      split <;> rfl

theorem Follows.apply {m : Memory} {history : List Op} (h : m.Follows history) (op : Op) :
    (m.apply op).Follows (history ++ [op]) where
  images block := by
    rw [blocks_apply, writes_concat]
    cases op.writeTo? block with
    | none => simpa using h.images block
    | some w => exact (h.images block).write w
  connected := by
    rw [connected_apply, online_concat, h.connected]
  roundTrips := by
    rw [roundTrips_apply, fetches_concat, h.connected, h.roundTrips]

theorem follows_after (history : List Op) : (after history).Follows history := by
  induction history using List.reverseRecOn with
  | nil => exact follows_empty
  | append_singleton history op ih =>
      rw [after_concat]
      exact ih.apply op

/-! ## What is read -/

structure Told (history : List Op) (block : UInt16) (span : Span) (bytes : Bytes) : Prop where
  written : writes block history ≠ []
  stop_le : span.stop ≤ extent (writes block history)
  length_eq : bytes.length = span.length.toNat
  stored : ∀ j byte, bytes[j]? = some byte →
    Stored (writes block history) (span.offset.toNat + j) byte

theorem Told.unique {history : List Op} {block : UInt16} {span : Span} {bytes bytes' : Bytes}
    (h : Told history block span bytes) (h' : Told history block span bytes') :
    bytes = bytes' := by
  apply List.ext_getElem (h.length_eq.trans h'.length_eq.symm)
  intro j hj hj'
  exact (h.stored j _ (List.getElem?_eq_getElem hj)).unique
    (h'.stored j _ (List.getElem?_eq_getElem hj'))

theorem Follows.told_of_fetch {m : Memory} {history : List Op} (h : m.Follows history)
    {block : UInt16} {span : Span} {bytes : Bytes} (hfetch : m.fetch block span = .ok bytes) :
    Told history block span bytes := by
  have himage := h.images block
  unfold fetch at hfetch
  cases hblock : m.blocks block with
  | none => simp [hblock] at hfetch
  | some image =>
      rw [hblock] at himage
      cases himage with
      | image _ hne hlength hstored =>
          by_cases hstop : span.stop ≤ image.length
          · simp only [hblock, if_pos hstop, Except.ok.injEq] at hfetch
            rw [← hfetch]
            refine ⟨hne, hlength ▸ hstop, ?_, ?_⟩
            · rw [List.length_take, List.length_drop]
              unfold Span.stop at hstop
              omega
            · intro j byte hbyte
              obtain ⟨hj, -⟩ := List.getElem?_eq_some_iff.1 hbyte
              rw [List.length_take] at hj
              rw [List.getElem?_take_of_lt (by omega), List.getElem?_drop] at hbyte
              exact hstored _ _ hbyte
          · simp [hblock, hstop] at hfetch

theorem Follows.exists_fetch {m : Memory} {history : List Op} (h : m.Follows history)
    {block : UInt16} {span : Span} (hwritten : writes block history ≠ [])
    (hstop : span.stop ≤ extent (writes block history)) :
    ∃ bytes, m.fetch block span = .ok bytes := by
  have himage := h.images block
  unfold fetch
  cases hblock : m.blocks block with
  | none =>
      rw [hblock] at himage
      cases himage with
      | missing hnil => exact absurd hnil hwritten
  | some image =>
      rw [hblock] at himage
      cases himage with
      | image _ hne hlength hstored =>
          rw [← hlength] at hstop
          exact ⟨_, if_pos hstop⟩

theorem Follows.fetch_eq_ok_iff {m : Memory} {history : List Op} (h : m.Follows history)
    {block : UInt16} {span : Span} {bytes : Bytes} :
    m.fetch block span = .ok bytes ↔ Told history block span bytes := by
  refine ⟨h.told_of_fetch, ?_⟩
  intro htold
  obtain ⟨found, hfound⟩ := h.exists_fetch htold.written htold.stop_le
  rw [hfound, (h.told_of_fetch hfound).unique htold]

theorem read_of_connected {m : Memory} (h : m.connected = true) (block : UInt16) (span : Span) :
    (transport.read block span m).1 = m.fetch block span := by
  simp [transport, roundTrip, h]

theorem readMany_of_connected {m : Memory} (h : m.connected = true)
    (spans : List (UInt16 × Span)) :
    (transport.readMany spans m).1 =
      .ok (spans.map fun (block, span) => (transport.read block span m).1) := by
  simp [transport, roundTrip, h]

/-- After any history, reads with a connection give what the history tells: they
succeed exactly within what has been written to a data block, with the byte of the
last write over each offset, and zero where there is none.  Spans read together
get what each would get.  Without a connection every read fails.  Nothing but a
write changes data blocks, and a write only its own, and the round trips are the
reads made with a connection. -/
theorem after_tells (history : List Op) :
    (online history = true →
      (∀ block span bytes, (transport.read block span (after history)).1 = .ok bytes ↔
        Told history block span bytes) ∧
      (∀ block span, (∃ bytes, (transport.read block span (after history)).1 = .ok bytes) ↔
        writes block history ≠ [] ∧ span.stop ≤ extent (writes block history)) ∧
      ∀ spans, (transport.readMany spans (after history)).1 =
        .ok (spans.map fun (block, span) => (transport.read block span (after history)).1)) ∧
    (online history = false →
      (∀ block span,
        (transport.read block span (after history)).1 = .error (.transport .notConnected)) ∧
      ∀ spans,
        (transport.readMany spans (after history)).1 = .error (.transport .notConnected)) ∧
    (∀ op, (∀ block offset bytes, op ≠ .write block offset bytes) →
      (after (history ++ [op])).blocks = (after history).blocks) ∧
    (∀ block offset bytes other, other ≠ block →
      (after (history ++ [.write block offset bytes])).blocks other =
        (after history).blocks other) ∧
    (after history).roundTrips = fetches history := by
  have hfollows := follows_after history
  refine ⟨?_, ?_, ?_, ?_, hfollows.roundTrips⟩
  · intro honline
    have hconnected := hfollows.connected.trans honline
    refine ⟨?_, ?_, readMany_of_connected hconnected⟩
    · intro block span bytes
      rw [read_of_connected hconnected]
      exact hfollows.fetch_eq_ok_iff
    · intro block span
      rw [read_of_connected hconnected]
      constructor
      · rintro ⟨bytes, hbytes⟩
        have htold := hfollows.told_of_fetch hbytes
        exact ⟨htold.written, htold.stop_le⟩
      · rintro ⟨hwritten, hstop⟩
        exact hfollows.exists_fetch hwritten hstop
  · intro hoffline
    have hconnected := hfollows.connected.trans hoffline
    constructor
    · intro block span
      simp [transport, roundTrip, hconnected]
    · intro spans
      simp [transport, roundTrip, hconnected]
  · intro op hop
    funext block
    rw [after_concat, blocks_apply]
    cases op with
    | write other offset bytes => exact absurd rfl (hop other offset bytes)
    | _ => rfl
  · intro block offset bytes other hne
    rw [after_concat]
    exact blocks_write_of_ne hne _ _ _

/-- Two writes of which the second lies in the first, and one of no bytes that
takes the data block further. -/
def overlapping : List Op :=
  [.write 4 2 [1, 2, 3], .connect, .write 4 3 [7], .read 9 ⟨0, 1⟩, .write 4 8 []]

theorem overlapping_told :
    online overlapping = true ∧ Told overlapping 4 ⟨0, 8⟩ [0, 0, 1, 7, 3, 0, 0, 0] ∧
    online (overlapping ++ [.disconnect]) = false ∧
    (transport.read 4 ⟨0, 8⟩ (after (overlapping ++ [.disconnect]))).1 =
      .error (.transport .notConnected) ∧
    (after (overlapping ++ [.read 4 ⟨0, 8⟩])).blocks = (after overlapping).blocks ∧
    (after (overlapping ++ [.write 5 0 [1]])).blocks 4 = (after overlapping).blocks 4 := by
  have htells := after_tells overlapping
  have hoffline := after_tells (overlapping ++ [.disconnect])
  refine ⟨rfl, (htells.1 rfl).1 4 ⟨0, 8⟩ _ |>.1 rfl, rfl, (hoffline.2.1 rfl).1 4 ⟨0, 8⟩,
    htells.2.2.1 _ (by simp), htells.2.2.2.1 5 0 [1] 4 (by decide)⟩

end DataBlock.Memory
