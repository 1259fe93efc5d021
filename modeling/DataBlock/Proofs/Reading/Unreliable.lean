import DataBlock.Proofs.Decoding.Relevance
import DataBlock.Proofs.Reading.Agreement
import DataBlock.Proofs.Reading.Routing
import DataBlock.Transport.Unreliable
/-!
# Reading over an unreliable connection

However the calls to data blocks in memory are refused and their replies are
spoiled, a tag gets the value that its bytes in memory stand for, or an error.  A
buffer that is cut is too short for its tag, what a buffer is padded with lies
behind the span, and replies that are too few or too many are not used.
-/

namespace DataBlock

/-- From states with the property, the action gives a result as said and keeps the
property. -/
def Ensures {σ α : Type} (P : σ → Prop) (action : StateM σ α) (Q : α → Prop) : Prop :=
  ∀ s, P s → Q (action s).1 ∧ P (action s).2

namespace Ensures

variable {σ α β : Type} {P : σ → Prop}

protected theorem map {action : StateM σ α} {Q : α → Prop} {R : β → Prop}
    (h : Ensures P action Q) {f : α → β} (hf : ∀ a, Q a → R (f a)) :
    Ensures P (do return f (← action)) R := by
  intro s hs
  exact ⟨hf _ (h s hs).1, (h s hs).2⟩

protected theorem mapM {f : α → StateM σ β} {Q : α → β → Prop} {as : List α}
    (h : ∀ a ∈ as, Ensures P (f a) (Q a)) : Ensures P (as.mapM f) (List.Forall₂ Q as) := by
  induction as with
  | nil =>
      intro s hs
      exact ⟨.nil, hs⟩
  | cons a as ih =>
      intro s hs
      rw [List.mapM_cons]
      obtain ⟨hhead, hnext⟩ := h a List.mem_cons_self s hs
      have htail : Ensures P (as.mapM f) (List.Forall₂ Q as) := by
        apply ih
        intro other hother
        exact h other (List.mem_cons_of_mem _ hother)
      exact ⟨.cons hhead (htail _ hnext).1, (htail _ hnext).2⟩

end Ensures

/-! ## Replies for a span -/

namespace Memory

open Transport

/-- A reply that cannot be taken for other bytes than those in memory. -/
inductive Offers (m : Memory) (block : UInt16) (span : Span) : Reply → Prop where
  | missing (e : Error) : Offers m block span (.error e)
  | short {bytes : Bytes} (h : bytes.length < span.length.toNat) : Offers m block span (.ok bytes)
  | followed {bytes : Bytes} (h : m.fetch block span = .ok bytes) (rest : Bytes) :
      Offers m block span (.ok (bytes ++ rest))

variable {m : Memory} {block : UInt16} {span : Span}

theorem length_of_fetch {bytes : Bytes} (h : m.fetch block span = .ok bytes) :
    bytes.length = span.length.toNat := by
  unfold fetch at h
  split at h
  · cases h
  · next image hblock =>
    split at h
    · next hstop =>
      cases h
      rw [Span.stop] at hstop
      rw [List.length_take, List.length_drop]
      omega
    · cases h

theorem offers_fetch : m.Offers block span (m.fetch block span) := by
  cases h : m.fetch block span with
  | error e => exact .missing e
  | ok bytes =>
      rw [← List.append_nil bytes]
      exact .followed h []

theorem offers_damaged (damage : Damage) :
    m.Offers block span ((m.fetch block span).map damage.apply) := by
  cases h : m.fetch block span with
  | error e => exact .missing e
  | ok bytes =>
      cases damage with
      | pad => exact .followed h _
      | truncate =>
          rcases List.eq_nil_or_concat' bytes with rfl | ⟨front, last, rfl⟩
          · exact .followed h []
          · apply Offers.short
            rw [← length_of_fetch h, Damage.apply, List.dropLast_concat, List.length_append]
            exact Nat.lt_succ_self _

theorem decode_append_of_fetch {tag : Tag} {bytes : Bytes}
    (h : m.fetch tag.block tag.span = .ok bytes) (rest : Bytes) :
    tag.decode (bytes ++ rest) = tag.decode bytes :=
  Tag.decode_append_of_le (Nat.le_of_eq (length_of_fetch h).symm) rest

/-- A value decoded from such a reply is the tag's value in memory. -/
theorem Offers.reads {tag : Tag} {reply : Reply} {v : Value}
    (h : m.Offers tag.block tag.span reply) (hv : tag.Reads reply (.ok v)) :
    tag.Reads (m.fetch tag.block tag.span) (.ok v) := by
  cases hv with
  | value hdecode =>
      cases h with
      | short hshort =>
          rw [Tag.decode_of_lt hshort] at hdecode
          cases hdecode
      | followed hfetch rest =>
          rw [decode_append_of_fetch hfetch] at hdecode
          rw [hfetch]
          exact .value hdecode

/-- An answer that has another number of replies than of spans, or of which each reply
is for its span. -/
def OffersAll (m : Memory) (spans : List (UInt16 × Span)) (answer : Answer) : Prop :=
  ∀ replies, answer = .ok replies → replies.length = spans.length →
    List.Forall₂ (fun span reply => m.Offers span.1 span.2 reply) spans replies

theorem offersAll_error (spans : List (UInt16 × Span)) (e : Error) :
    m.OffersAll spans (.error e) := by
  rintro replies ⟨⟩

theorem offersAll_map {spans : List (UInt16 × Span)} {reply : UInt16 → Span → Reply}
    (h : ∀ block span, m.Offers block span (reply block span)) :
    m.OffersAll spans (.ok (spans.map fun (block, span) => reply block span)) := by
  rintro replies ⟨⟩ -
  rw [List.forall₂_map_right_iff, List.forall₂_same]
  intro (block, span) _
  exact h block span

theorem offersAll_of_length_ne {spans : List (UInt16 × Span)} {replies : List Reply}
    (h : spans ≠ [] → replies.length ≠ spans.length) : m.OffersAll spans (.ok replies) := by
  rintro _ ⟨⟩ hlength
  cases spans with
  | nil =>
      rw [List.length_eq_zero_iff.1 hlength]
      exact .nil
  | cons span spans => exact absurd hlength (h (List.cons_ne_nil span spans))

/-- Replies that are dropped or added are told by the number that is left. -/
theorem offersAll_spoil (spans : List (UInt16 × Span)) (failure : ReadManyFailure) :
    m.OffersAll spans
      (.ok (failure.spoil (spans.map fun (block, span) => m.fetch block span))) := by
  cases failure with
  | reject => exact offersAll_map fun _ _ => offers_fetch
  | damage d =>
      rw [ReadManyFailure.spoil, List.map_map]
      exact offersAll_map fun _ _ => offers_damaged d
  | dropLast =>
      apply offersAll_of_length_ne
      intro hspans
      have hpos := List.length_pos_iff.2 hspans
      rw [ReadManyFailure.spoil, List.length_dropLast, List.length_map]
      omega
  | addZero =>
      apply offersAll_of_length_ne
      intro _
      rw [ReadManyFailure.spoil, List.length_append, List.length_map]
      exact Nat.succ_ne_self _
  | dropAll =>
      apply offersAll_of_length_ne
      intro hspans
      exact Nat.ne_of_lt (List.length_pos_iff.2 hspans)

/-! ## What is said over an unreliable connection -/

def Stores (m s : Memory) : Prop := s.blocks = m.blocks

theorem Stores.fetch_eq {s : Memory} (h : m.Stores s) : s.fetch = m.fetch := by
  funext block span
  rw [fetch, h, fetch]

/-- A round trip gets an answer from the data blocks, or none. -/
theorem ensures_roundTrip {α : Type} {f : (UInt16 → Span → Reply) → Except Error α}
    {Q : Except Error α → Prop} (hanswer : Q (f m.fetch)) (herror : ∀ e, Q (.error e)) :
    Ensures m.Stores (roundTrip fun s => f s.fetch) Q := by
  intro s hs
  unfold roundTrip
  split
  · refine ⟨?_, hs⟩
    change Q (f s.fetch)
    rw [hs.fetch_eq]
    exact hanswer
  · exact ⟨herror _, hs⟩

theorem ensures_read (failures : Failures) (block : UInt16) (span : Span) :
    Ensures m.Stores ((transport.unreliable failures).read block span) (m.Offers block span) := by
  unfold unreliable
  dsimp only
  split
  · exact ensures_roundTrip (f := fun fetch => fetch block span) offers_fetch .missing
  · intro s hs
    exact ⟨.missing _, hs⟩
  · next d _ =>
    have hdamaged : Ensures m.Stores (transport.read block span)
        fun reply => m.Offers block span (reply.map d.apply) :=
      ensures_roundTrip (f := fun fetch => fetch block span) (offers_damaged d) (.missing ·)
    exact hdamaged.map fun _ hreply => hreply

theorem ensures_readMany (failures : Failures) (spans : List (UInt16 × Span)) :
    Ensures m.Stores ((transport.unreliable failures).readMany spans) (m.OffersAll spans) := by
  let replies : (UInt16 → Span → Reply) → Answer := fun fetch =>
    .ok (spans.map fun (block, span) => fetch block span)
  unfold unreliable
  dsimp only
  split
  · exact ensures_roundTrip (f := replies) (offersAll_map fun _ _ => offers_fetch)
      (offersAll_error spans)
  · intro s hs
    exact ⟨offersAll_error spans _, hs⟩
  · next failure _ _ =>
    have hspoilt : Ensures m.Stores (transport.readMany spans)
        fun answer => m.OffersAll spans (answer.map failure.spoil) :=
      ensures_roundTrip (f := replies) (offersAll_spoil spans failure) (offersAll_error spans)
    exact hspoilt.map fun _ hanswer => hanswer

theorem ensures_ask (failures : Failures) (request : Plan.Request) :
    Ensures m.Stores ((transport.unreliable failures).ask request)
      (m.OffersAll request.spans) := by
  unfold ask
  split
  · next item hitem =>
    apply (ensures_read failures request.block item.span).map
    rintro reply hreply replies ⟨⟩ -
    rw [Plan.Request.spans, hitem]
    exact .cons hreply .nil
  · exact ensures_readMany failures request.spans

/-- A result of a tag that is an error or the tag's value in memory. -/
def Vouches (m : Memory) (tag : Tag) (result : Except Error Value) : Prop :=
  ∀ v, result = .ok v → tag.Reads (m.fetch tag.block tag.span) (.ok v)

variable {ν : Type}

theorem Offers.vouches {tag : Tag} {reply : Reply} {result : Except Error Value}
    (h : m.Offers tag.block tag.span reply) (hreads : tag.Reads reply result) :
    m.Vouches tag result := by
  rintro v rfl
  exact h.reads hreads

theorem OffersAll.vouches {request : Plan.Request} {answer : Answer} {position index : Nat}
    {tag : Tag} {result : Except Error Value} (h : m.OffersAll request.spans answer)
    (hitem : request.items[position]? = some ⟨index, tag.span⟩) (hblock : request.block = tag.block)
    (hgives : request.Gives position tag answer result) : m.Vouches tag result := by
  cases hgives with
  | refused e => rintro v ⟨⟩
  | miscounted hcount => rintro v ⟨⟩
  | @reply replies reply result hcount hreply hreads =>
      have hspan : request.spans[position]? = some (tag.block, tag.span) := by
        simp [Plan.Request.spans, hitem, hblock]
      have hlength : replies.length = request.spans.length := by
        rw [hcount, Plan.Request.spans, List.length_map]
      have hoffers := rel_of_forall₂ (h replies rfl hlength) hspan hreply
      exact hoffers.vouches hreads

def VouchesAll (m : Memory) (tags : List (ν × Tag)) (results : List (ν × Except Error Value)) :
    Prop :=
  List.Forall₂ (fun tag result => result.1 = tag.1 ∧ m.Vouches tag.2 result.2) tags results

theorem ensures_readTags (failures : Failures) (tags : List (ν × Tag)) :
    Ensures m.Stores ((transport.unreliable failures).readTags tags) (m.VouchesAll tags) := by
  apply Ensures.mapM
  intro (name, tag) _
  have htag : Ensures m.Stores ((transport.unreliable failures).readTag tag) (m.Vouches tag) :=
    (ensures_read failures tag.block tag.span).map fun reply hreply =>
      hreply.vouches (tag.reads_decodeReply reply)
  exact htag.map fun _ hresult => ⟨rfl, hresult⟩

theorem ensures_readTagsPlanned (failures : Failures) (planner : Planner)
    (tags : List (ν × Tag)) :
    Ensures m.Stores ((transport.unreliable failures).readTagsPlanned planner tags)
      (m.VouchesAll tags) := by
  intro s hs
  constructor
  · have hanswers : List.Forall₂ (fun request answer => m.OffersAll request.spans answer)
        (planner.plan (tags.map (·.2)))
        ((transport.unreliable failures).answers (planner.plan (tags.map (·.2))) s) :=
      forall₂_answers (fun request _ => ensures_ask failures request) hs
    apply forall₂_of_getElem?
    · have hnames := names_readTagsPlanned (transport.unreliable failures) planner tags s
      rw [← List.length_map Prod.fst, ← hnames, List.length_map]
    · intro index (name, tag) htag
      obtain ⟨number, position, request, answer, result, hrequest, hblock, hitem, hanswer, hresult,
        hgives⟩ := exists_place_result (transport.unreliable failures) planner tags s htag
      have hoffers := rel_of_forall₂ hanswers hrequest hanswer
      exact ⟨(name, result), hresult, rfl, hoffers.vouches hitem hblock hgives⟩
  · have hask : ∀ request ∈ planner.plan (tags.map (·.2)), Ensures m.Stores
        (do return request.replies (← (transport.unreliable failures).ask request))
        fun _ => True :=
      fun request _ => (ensures_ask failures request).map fun _ _ => trivial
    exact (Ensures.mapM (Q := fun _ _ => True) hask s hs).2

/-- No failure of calls to data blocks in memory makes a false value.  Read one by one
or by plan, each tag gets, under its name, an error or the value that its bytes in
memory stand for; and the data blocks stay as they are. -/
theorem read_unreliable (m : Memory) (failures : Failures) (planner : Planner)
    (tags : List (ν × Tag)) :
    m.VouchesAll tags ((transport.unreliable failures).readTags tags m).1 ∧
    m.VouchesAll tags ((transport.unreliable failures).readTagsPlanned planner tags m).1 ∧
    ((transport.unreliable failures).readTags tags m).2.blocks = m.blocks ∧
    ((transport.unreliable failures).readTagsPlanned planner tags m).2.blocks = m.blocks := by
  have hplain := ensures_readTags failures tags m (rfl : m.Stores m)
  have hplanned := ensures_readTagsPlanned failures planner tags m (rfl : m.Stores m)
  exact ⟨hplain.1, hplanned.1, hplain.2, hplanned.2⟩

end Memory

/-! ## Replies that are all damaged alike -/

def Failures.damaging (damage : Damage) : Failures :=
  ⟨none, none, some (.damage damage), some (.damage damage)⟩

namespace Memory

open Transport

variable {ν : Type}

theorem damaging_answersBy (m : Memory) (damage : Damage) :
    (transport.unreliable (.damaging damage)).AnswersBy m.Serves fun block span =>
      (m.fetch block span).map damage.apply where
  read block span :=
    (m.transport_answersBy.read block span).map fun reply => reply.map damage.apply
  readMany := by
    right
    intro spans
    have hspoilt := (m.transport_answersBy.yields_readMany spans).map fun answer =>
      answer.map (ReadManyFailure.damage damage).spoil
    rw [Except.map, ReadManyFailure.spoil, List.map_map] at hspoilt
    exact hspoilt

theorem decodeReply_pad (m : Memory) (tag : Tag) :
    tag.decodeReply ((m.fetch tag.block tag.span).map Damage.pad.apply) =
      tag.decodeReply (m.fetch tag.block tag.span) := by
  cases h : m.fetch tag.block tag.span with
  | error e => rfl
  | ok bytes =>
      change (tag.decode (bytes ++ [0xAA, 0xBB])).mapError Error.codec =
        (tag.decode bytes).mapError .codec
      rw [decode_append_of_fetch h]

theorem exists_decodeReply_truncate (m : Memory) (tag : Tag) :
    ∃ e, tag.decodeReply ((m.fetch tag.block tag.span).map Damage.truncate.apply) = .error e := by
  cases h : m.fetch tag.block tag.span with
  | error e => exact ⟨e, rfl⟩
  | ok bytes =>
      have hshort : bytes.dropLast.length < tag.span.length.toNat := by
        have hpos := tag.length_span_pos
        rw [List.length_dropLast, length_of_fetch h]
        omega
      change ∃ e, (tag.decode bytes.dropLast).mapError Error.codec = .error e
      rw [Tag.decode_of_lt hshort]
      exact ⟨_, rfl⟩

/-- Bytes behind each reply leave all results as they are over a sound connection, and
without its last byte no reply has a value. -/
theorem read_damaged {m : Memory} (hm : m.connected = true) (planner : Planner)
    (tags : List (ν × Tag)) :
    ((transport.unreliable (.damaging .pad)).readTags tags m).1 = (transport.readTags tags m).1 ∧
    ((transport.unreliable (.damaging .pad)).readTagsPlanned planner tags m).1 =
      (transport.readTagsPlanned planner tags m).1 ∧
    (∀ result ∈ ((transport.unreliable (.damaging .truncate)).readTags tags m).1,
      ∃ e, result.2 = .error e) ∧
    ∀ result ∈ ((transport.unreliable (.damaging .truncate)).readTagsPlanned planner tags m).1,
      ∃ e, result.2 = .error e := by
  have hserves : m.Serves m := ⟨hm, rfl⟩
  have hpad := m.damaging_answersBy .pad
  have htruncate := m.damaging_answersBy .truncate
  have hplain : ((transport.unreliable (.damaging .pad)).readTags tags m).1 =
      (transport.readTags tags m).1 := by
    rw [(hpad.yields_readTags tags m hserves).1,
      (m.transport_answersBy.yields_readTags tags m hserves).1]
    simp only [decodeReply_pad]
  have hlost : ∀ result ∈ ((transport.unreliable (.damaging .truncate)).readTags tags m).1,
      ∃ e, result.2 = .error e := by
    rw [(htruncate.yields_readTags tags m hserves).1]
    intro result hresult
    obtain ⟨⟨name, tag⟩, -, rfl⟩ := List.mem_map.1 hresult
    exact exists_decodeReply_truncate m tag
  refine ⟨hplain, ?_, hlost, ?_⟩
  · rw [hpad.planned_eq_plain planner tags hserves, hplain,
      m.transport_answersBy.planned_eq_plain planner tags hserves]
  · rw [htruncate.planned_eq_plain planner tags hserves]
    exact hlost

end Memory

end DataBlock
