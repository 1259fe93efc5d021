import DataBlock.Proofs.Reading.Calls
import DataBlock.Proofs.Reading.Filing
/-!
# Answers reach their own tags

A transport may answer the requests of a plan in any way: refuse them, give too
few or too many replies, or buffers of any length.  Still each tag has one place
in the plan, and its result is what its request's answer gives to that place.
Answers to other requests do not matter to it.
-/

namespace DataBlock

/-! ## Lists related position by position -/

theorem rel_of_forall₂ {α β : Type} {R : α → β → Prop} {as : List α} {bs : List β}
    (h : List.Forall₂ R as bs) {index : Nat} {a : α} {b : β} (ha : as[index]? = some a)
    (hb : bs[index]? = some b) : R a b := by
  obtain ⟨hlt, rfl⟩ := List.getElem?_eq_some_iff.1 ha
  obtain ⟨hlt', rfl⟩ := List.getElem?_eq_some_iff.1 hb
  exact h.get hlt hlt'

theorem forall₂_of_getElem? {α β : Type} {R : α → β → Prop} {as : List α} {bs : List β}
    (hlength : as.length = bs.length)
    (h : ∀ (index : Nat) (a : α), as[index]? = some a → ∃ b, bs[index]? = some b ∧ R a b) :
    List.Forall₂ R as bs := by
  apply List.forall₂_iff_get.2
  refine ⟨hlength, ?_⟩
  intro index ha hb
  obtain ⟨b, hget, hrel⟩ := h index _ (List.getElem?_eq_getElem ha)
  rw [List.getElem?_eq_getElem hb, Option.some.injEq] at hget
  rw [List.get_eq_getElem, List.get_eq_getElem, hget]
  exact hrel

/-! ## What an answer gives -/

abbrev Answer := Except Error (List Reply)

/-- What a tag gets from a reply: the reply's own error, or what becomes of its
bytes. -/
inductive Tag.Reads (tag : Tag) : Reply → Except Error Value → Prop where
  | unread (e : Error) : Reads tag (.error e) (.error e)
  | value {bytes : Bytes} {v : Value} (h : tag.decode bytes = .ok v) :
      Reads tag (.ok bytes) (.ok v)
  | undecoded {bytes : Bytes} {e : CodecError} (h : tag.decode bytes = .error e) :
      Reads tag (.ok bytes) (.error (.codec e))

theorem Tag.reads_decodeReply (tag : Tag) (reply : Reply) :
    tag.Reads reply (tag.decodeReply reply) := by
  cases reply with
  | error e => exact .unread e
  | ok bytes =>
      change tag.Reads (.ok bytes) ((tag.decode bytes).mapError .codec)
      cases h : tag.decode bytes with
      | error e => exact .undecoded h
      | ok v => exact .value h

theorem Tag.Reads.unique {tag : Tag} {reply : Reply} {result result' : Except Error Value}
    (h : tag.Reads reply result) (h' : tag.Reads reply result') : result = result' := by
  cases h <;> cases h' <;> simp_all

namespace Plan

/-- What the tag at a position of a request gets from the request's answer. -/
inductive Request.Gives (request : Request) (position : Nat) (tag : Tag) :
    Answer → Except Error Value → Prop where
  | reply {replies : List Reply} {reply : Reply} {result : Except Error Value}
      (hcount : replies.length = request.items.length) (hreply : replies[position]? = some reply)
      (hreads : tag.Reads reply result) : Gives request position tag (.ok replies) result
  /-- The replies cannot be told apart, so none is used. -/
  | miscounted {replies : List Reply} (hcount : replies.length ≠ request.items.length) :
      Gives request position tag (.ok replies) (.error (.transport
        (.itemCount request.block request.items.length replies.length)))
  | refused (e : Error) :
      Gives request position tag (.error e) (.error (.transport (.other e.message)))

/-- The answer settles the result. -/
theorem Request.Gives.unique {request : Request} {position : Nat} {tag : Tag} {answer : Answer}
    {result result' : Except Error Value} (h : request.Gives position tag answer result)
    (h' : request.Gives position tag answer result') : result = result' := by
  cases h with
  | refused e =>
      cases h'
      rfl
  | miscounted hcount =>
      cases h' with
      | miscounted => rfl
      | reply hcount' => exact absurd hcount' hcount
  | reply hcount hreply hreads =>
      cases h' with
      | miscounted hcount' => exact absurd hcount hcount'
      | reply _ hreply' hreads' =>
          rw [hreply, Option.some.injEq] at hreply'
          subst hreply'
          exact hreads.unique hreads'

theorem index_replies (request : Request) (answer : Answer) :
    (request.replies answer).map Prod.fst = request.items.map (·.index) := by
  unfold Request.replies
  cases answer with
  | error e => simp [Function.comp_def]
  | ok replies =>
      by_cases hcount : replies.length = (request.items.map (·.index)).length
      · simp only [if_pos hcount]
        exact List.map_fst_zip (Nat.le_of_eq hcount.symm)
      · simp only [if_neg hcount]
        simp [Function.comp_def]

/-- The reply filed for an item is the one that the answer gives to its place. -/
theorem exists_reply {request : Request} {position : Nat} {item : Item}
    (hitem : request.items[position]? = some item) (answer : Answer) (tag : Tag) :
    ∃ reply, (item.index, reply) ∈ request.replies answer ∧
      request.Gives position tag answer (tag.decodeReply reply) := by
  have hposition : (request.items.map (·.index))[position]? = some item.index := by
    simp [hitem]
  have hindex := List.mem_of_getElem? hposition
  unfold Request.replies
  cases answer with
  | error e => exact ⟨_, List.mem_map.2 ⟨item.index, hindex, rfl⟩, .refused e⟩
  | ok replies =>
      by_cases hcount : replies.length = (request.items.map (·.index)).length
      · obtain ⟨hlt, -⟩ := List.getElem?_eq_some_iff.1 hposition
        rw [← hcount] at hlt
        have hreply := List.getElem?_eq_getElem hlt
        simp only [if_pos hcount]
        refine ⟨replies[position], ?_, ?_⟩
        · apply List.mem_of_getElem? (i := position)
          exact List.getElem?_zip_eq_some.2 ⟨hposition, hreply⟩
        · rw [List.length_map] at hcount
          exact .reply hcount hreply (tag.reads_decodeReply _)
      · simp only [if_neg hcount]
        refine ⟨_, List.mem_map.2 ⟨item.index, hindex, rfl⟩, ?_⟩
        rw [List.length_map] at hcount ⊢
        exact .miscounted hcount

/-! ## One place for each tag -/

def itemAt? (requests : List Request) (number position : Nat) : Option Item :=
  requests[number]?.bind fun request => request.items[position]?

theorem itemAt?_eq_some_iff {requests : List Request} {number position : Nat} {item : Item} :
    itemAt? requests number position = some item ↔
      ∃ request, requests[number]? = some request ∧ request.items[position]? = some item :=
  Option.bind_eq_some_iff

/-- Where no index comes twice, an item's index settles its place. -/
theorem place_unique {requests : List Request}
    (hnodup : (requests.flatMap fun r => r.items.map (·.index)).Nodup)
    {number number' position position' : Nat} {item item' : Item}
    (h : itemAt? requests number position = some item)
    (h' : itemAt? requests number' position' = some item') (hindex : item.index = item'.index) :
    number = number' ∧ position = position' := by
  obtain ⟨request, hrequest, hitem⟩ := itemAt?_eq_some_iff.1 h
  obtain ⟨request', hrequest', hitem'⟩ := itemAt?_eq_some_iff.1 h'
  rw [List.nodup_flatMap] at hnodup
  obtain ⟨hwithin, hacross⟩ := hnodup
  have hmem : item.index ∈ request.items.map (·.index) :=
    List.mem_map.2 ⟨item, List.mem_of_getElem? hitem, rfl⟩
  have hmem' : item.index ∈ request'.items.map (·.index) :=
    List.mem_map.2 ⟨item', List.mem_of_getElem? hitem', hindex.symm⟩
  obtain ⟨hlt, hget⟩ := List.getElem?_eq_some_iff.1 hrequest
  obtain ⟨hlt', hget'⟩ := List.getElem?_eq_some_iff.1 hrequest'
  have hnumber : number = number' := by
    rw [List.pairwise_iff_getElem] at hacross
    rcases Nat.lt_trichotomy number number' with hbefore | heq | hafter
    · have hdisjoint := hacross number number' hlt hlt' hbefore
      rw [hget, hget'] at hdisjoint
      exact absurd hmem' (hdisjoint hmem)
    · exact heq
    · have hdisjoint := hacross number' number hlt' hlt hafter
      rw [hget, hget'] at hdisjoint
      exact absurd hmem (hdisjoint hmem')
  subst hnumber
  have hsame : request' = request := by rw [← hget', hget]
  subst hsame
  have hindices := hwithin _ (List.mem_of_getElem? hrequest)
  refine ⟨rfl, (List.getElem?_inj ?_ hindices).1 ?_⟩
  · rw [List.length_map]
    exact (List.getElem?_eq_some_iff.1 hitem).1
  · simp [hitem, hitem', hindex]

/-- A plan has a place for every tag, with the tag's data block and span. -/
theorem exists_place (planner : Planner) {tags : List Tag} {index : Nat} {tag : Tag}
    (htag : tags[index]? = some tag) :
    ∃ (number position : Nat) (request : Request), (planner.plan tags)[number]? = some request ∧
      request.items[position]? = some ⟨index, tag.span⟩ ∧ request.block = tag.block := by
  have hentry : (⟨tag.block, index, tag.span⟩ : Entry) ∈ placed (planner.plan tags) := by
    rw [mem_placed_plan, mem_entries]
    exact ⟨tag, htag, rfl, rfl⟩
  obtain ⟨request, hrequest, hmem⟩ := List.mem_flatMap.1 hentry
  obtain ⟨item, hitem, heq⟩ := List.mem_map.1 hmem
  rw [Entry.mk.injEq] at heq
  obtain ⟨hblock, rfl⟩ := heq
  obtain ⟨number, hnumber⟩ := List.mem_iff_getElem?.1 hrequest
  obtain ⟨position, hposition⟩ := List.mem_iff_getElem?.1 hitem
  exact ⟨number, position, request, hnumber, hposition, hblock⟩

end Plan

namespace Transport

open Plan

variable {σ ν : Type}

def answers (t : Transport σ) : List Request → σ → List Answer
  | [], _ => []
  | request :: requests, s =>
    (t.ask request s).1 :: t.answers requests (t.ask request s).2

theorem length_answers (t : Transport σ) (requests : List Request) (s : σ) :
    (t.answers requests s).length = requests.length := by
  induction requests generalizing s with
  | nil => rfl
  | cons request requests ih =>
      rw [answers, List.length_cons, List.length_cons, ih]

/-- What holds of each request and its answer, as long as asking keeps the states in
`P`, holds of them all. -/
theorem forall₂_answers {t : Transport σ} {P : σ → Prop} {Q : Request → Answer → Prop}
    {requests : List Request}
    (h : ∀ request ∈ requests, ∀ s, P s → Q request (t.ask request s).1 ∧ P (t.ask request s).2)
    {s : σ} (hs : P s) : List.Forall₂ Q requests (t.answers requests s) := by
  induction requests generalizing s with
  | nil => exact .nil
  | cons request requests ih =>
      obtain ⟨hanswer, hstate⟩ := h request List.mem_cons_self s hs
      refine .cons hanswer (ih ?_ hstate)
      intro other hother
      exact h other (List.mem_cons_of_mem _ hother)

theorem askAll_eq (t : Transport σ) (requests : List Request) (s : σ) :
    (t.askAll requests s).1 =
      (List.zipWith Request.replies requests (t.answers requests s)).flatten := by
  let reply := fun request : Request => do
    let answer ← t.ask request
    return request.replies answer
  have hreplies : ∀ requests s, (requests.mapM reply s).1 =
      List.zipWith Request.replies requests (t.answers requests s) := by
    intro requests
    induction requests with
    | nil =>
        intro s
        rfl
    | cons request requests ih =>
        intro s
        rw [List.mapM_cons]
        change request.replies (t.ask request s).1 ::
          (requests.mapM reply (t.ask request s).2).1 = _
        rw [ih]
        rfl
  exact congrArg List.flatten (hreplies requests s)

/-- Every item is given a reply, whatever the answers. -/
theorem index_askAll (t : Transport σ) (requests : List Request) (s : σ) :
    (t.askAll requests s).1.map Prod.fst = requests.flatMap fun r => r.items.map (·.index) := by
  rw [askAll_eq]
  induction requests generalizing s with
  | nil => rfl
  | cons request requests ih =>
      rw [answers, List.zipWith_cons_cons, List.flatten_cons, List.map_append, index_replies, ih,
        List.flatMap_cons]

theorem mem_askAll (t : Transport σ) {requests : List Request} {s : σ} {number : Nat}
    {request : Request} {answer : Answer} (hrequest : requests[number]? = some request)
    (hanswer : (t.answers requests s)[number]? = some answer) {reply : Nat × Reply}
    (hreply : reply ∈ request.replies answer) : reply ∈ (t.askAll requests s).1 := by
  rw [askAll_eq]
  refine List.mem_flatten.2 ⟨_, List.mem_of_getElem? (i := number) ?_, hreply⟩
  rw [List.getElem?_zipWith, hrequest, hanswer]

/-! ## The slots of a plan -/

theorem getElem?_slots (t : Transport σ) (planner : Planner) (tags : List Tag) (s : σ)
    {index : Nat} {reply : Reply} (hmem : (index, reply) ∈ (t.askAll (planner.plan tags) s).1) :
    (file (List.replicate tags.length none) (t.askAll (planner.plan tags) s).1)[index]? =
      some (some reply) := by
  have hindices := index_askAll t (planner.plan tags) s
  have hnodup : ((t.askAll (planner.plan tags) s).1.map Prod.fst).Nodup := by
    rw [hindices]
    exact nodup_index_plan planner tags
  have hrange : index ∈ List.range tags.length := by
    rw [← (index_plan_perm planner tags).mem_iff, ← hindices]
    exact List.mem_map.2 ⟨_, hmem, rfl⟩
  apply getElem?_file_of_mem hnodup hmem
  rw [List.length_replicate]
  exact List.mem_range.1 hrange

/-- No slot is left empty. -/
theorem slots_ne_none (t : Transport σ) (planner : Planner) (tags : List Tag) (s : σ) :
    ∀ slot ∈ file (List.replicate tags.length none) (t.askAll (planner.plan tags) s).1,
      slot ≠ none := by
  intro slot hslot
  obtain ⟨index, hindex⟩ := List.mem_iff_getElem?.1 hslot
  obtain ⟨hlt, -⟩ := List.getElem?_eq_some_iff.1 hindex
  rw [length_file, List.length_replicate] at hlt
  have hmem : index ∈ (t.askAll (planner.plan tags) s).1.map Prod.fst := by
    rw [index_askAll, (index_plan_perm planner tags).mem_iff]
    exact List.mem_range.2 hlt
  obtain ⟨⟨_, reply⟩, hreply, rfl⟩ := List.mem_map.1 hmem
  rw [getElem?_slots t planner tags s hreply] at hindex
  rw [← Option.some.inj hindex]
  exact Option.some_ne_none reply

theorem getElem?_readTagsPlanned (t : Transport σ) (planner : Planner) (tags : List (ν × Tag))
    (s : σ) {index : Nat} {name : ν} {tag : Tag} {reply : Reply}
    (htag : tags[index]? = some (name, tag))
    (hreply : (index, reply) ∈ (t.askAll (planner.plan (tags.map (·.2))) s).1) :
    (t.readTagsPlanned planner tags s).1[index]? = some (name, tag.decodeReply reply) := by
  have hslot := t.getElem?_slots planner _ s hreply
  rw [List.length_map] at hslot
  change (List.zipWith _ tags (file _ (t.askAll _ s).1))[index]? = _
  rw [List.getElem?_zipWith, htag, hslot]
  rfl

/-- A tag's result is what the answer to its request gives to its place. -/
theorem exists_result (t : Transport σ) (planner : Planner) (tags : List (ν × Tag)) (s : σ)
    {number position index : Nat} {request : Request} {span : Span} {answer : Answer} {name : ν}
    {tag : Tag} (hrequest : (planner.plan (tags.map (·.2)))[number]? = some request)
    (hitem : request.items[position]? = some ⟨index, span⟩)
    (hanswer : (t.answers (planner.plan (tags.map (·.2))) s)[number]? = some answer)
    (htag : tags[index]? = some (name, tag)) :
    ∃ result, (t.readTagsPlanned planner tags s).1[index]? = some (name, result) ∧
      request.Gives position tag answer result := by
  obtain ⟨reply, hreply, hgives⟩ := exists_reply hitem answer tag
  have hmem := t.mem_askAll hrequest hanswer hreply
  exact ⟨_, t.getElem?_readTagsPlanned planner tags s htag hmem, hgives⟩

/-- A tag has a place in the plan, and its result is given to that place. -/
theorem exists_place_result (t : Transport σ) (planner : Planner) (tags : List (ν × Tag)) (s : σ)
    {index : Nat} {name : ν} {tag : Tag} (htag : tags[index]? = some (name, tag)) :
    ∃ (number position : Nat) (request : Request) (answer : Answer) (result : Except Error Value),
      (planner.plan (tags.map (·.2)))[number]? = some request ∧ request.block = tag.block ∧
      request.items[position]? = some ⟨index, tag.span⟩ ∧
      (t.answers (planner.plan (tags.map (·.2))) s)[number]? = some answer ∧
      (t.readTagsPlanned planner tags s).1[index]? = some (name, result) ∧
      request.Gives position tag answer result := by
  have hplace : (tags.map (·.2))[index]? = some tag := by simp [htag]
  obtain ⟨number, position, request, hrequest, hitem, hblock⟩ := exists_place planner hplace
  have hlt : number < (t.answers (planner.plan (tags.map (·.2))) s).length := by
    rw [length_answers]
    exact (List.getElem?_eq_some_iff.1 hrequest).1
  have hanswer := List.getElem?_eq_getElem hlt
  obtain ⟨result, hresult, hgives⟩ := t.exists_result planner tags s hrequest hitem hanswer htag
  exact ⟨number, position, request, _, result, hrequest, hblock, hitem, hanswer, hresult, hgives⟩

/-- Reading by plan makes one call for each request, in the order of the plan, and
has one result for each tag, under the tag's name.  A tag has one place in the
plan, and its result is what the answer to that request gives to the place: from
any transport with the same answer to this request the tag gets the same result.
No tag is left without a reply. -/
theorem readTagsPlanned_routing (t : Transport σ) (s : σ) (planner : Planner)
    (tags : List (ν × Tag)) :
    let requests := planner.plan (tags.map (·.2))
    t.traced.readTagsPlanned planner tags (s, []) =
      ((t.readTagsPlanned planner tags s).1, (t.readTagsPlanned planner tags s).2,
        requests.map (·.call)) ∧
    (t.readTagsPlanned planner tags s).1.map Prod.fst = tags.map Prod.fst ∧
    (∀ index name tag, tags[index]? = some (name, tag) →
      ∃ (number position : Nat) (request : Request) (answer : Answer)
          (result : Except Error Value),
        requests[number]? = some request ∧ request.block = tag.block ∧
        request.items[position]? = some ⟨index, tag.span⟩ ∧
        (∀ number' position' item, itemAt? requests number' position' = some item →
          item.index = index → number' = number ∧ position' = position) ∧
        (t.answers requests s)[number]? = some answer ∧
        (t.readTagsPlanned planner tags s).1[index]? = some (name, result) ∧
        request.Gives position tag answer result ∧
        ∀ {σ' : Type} (t' : Transport σ') (s' : σ'),
          (t'.answers requests s')[number]? = some answer →
          (t'.readTagsPlanned planner tags s').1[index]? = some (name, result)) ∧
    ∀ slot ∈ file (List.replicate tags.length none) (t.askAll requests s).1, slot ≠ none := by
  intro requests
  refine ⟨t.traces_readTagsPlanned planner tags s [], t.names_readTagsPlanned planner tags s,
    ?_, ?_⟩
  · intro index name tag htag
    obtain ⟨number, position, request, answer, result, hrequest, hblock, hitem, hanswer, hresult,
      hgives⟩ := t.exists_place_result planner tags s htag
    refine ⟨number, position, request, answer, result, hrequest, hblock, hitem, ?_, hanswer,
      hresult, hgives, ?_⟩
    · intro number' position' item hother hindex
      have hhere := itemAt?_eq_some_iff.2 ⟨request, hrequest, hitem⟩
      exact place_unique (nodup_index_plan planner _) hother hhere hindex
    · intro σ' t' s' hanswer'
      obtain ⟨result', hresult', hgives'⟩ :=
        t'.exists_result planner tags s' hrequest hitem hanswer' htag
      rw [hresult', hgives.unique hgives']
  · have hslots := t.slots_ne_none planner (tags.map (·.2)) s
    rw [List.length_map] at hslots
    exact hslots

/-- A tag alone in its data block, between two that share one. -/
def gauges : List (String × Tag) :=
  [("level", ⟨⟨5, 0, 0, .int, none⟩, rfl⟩), ("speed", ⟨⟨2, 0, 0, .real, none⟩, rfl⟩),
    ("limit", ⟨⟨5, 2, 0, .int, none⟩, rfl⟩)]

/-- Reads give the number one, and spans read together get a reply too many. -/
def overfull : Transport Unit where
  connect := pure (.ok ())
  disconnect := pure (.ok ())
  read _ _ := pure (.ok [0x3F, 0x80, 0, 0])
  readMany spans := pure (.ok (.ok [0, 7] :: spans.map fun _ => .ok [0, 8]))

def refusing : Transport Unit :=
  { overfull with readMany := fun _ => pure (.error (.transport (.other "busy"))) }

theorem gauges_results :
    gauges[1]? = some ("speed", ⟨⟨2, 0, 0, .real, none⟩, rfl⟩) ∧
    (∃ result, (overfull.readTagsPlanned Planner.standard gauges ()).1[1]? =
        some ("speed", result) ∧
      (refusing.readTagsPlanned Planner.standard gauges ()).1[1]? = some ("speed", result)) ∧
    (overfull.readTagsPlanned Planner.standard gauges ()).1 =
      [("level", .error (.transport (.itemCount 5 2 3))), ("speed", .ok (.real ⟨0x3F800000⟩)),
        ("limit", .error (.transport (.itemCount 5 2 3)))] := by
  have hplan : Planner.standard.plan (gauges.map (·.2)) =
      [⟨2, [⟨1, ⟨0, 4⟩⟩]⟩, ⟨5, [⟨0, ⟨0, 2⟩⟩, ⟨2, ⟨2, 2⟩⟩]⟩] := by
    cbv
  obtain ⟨-, -, hresults, -⟩ := readTagsPlanned_routing overfull () Planner.standard gauges
  obtain ⟨number, position, request, answer, result, -, -, -, hplace, hanswer, hresult, -, hother⟩ :=
    hresults 1 "speed" _ rfl
  rw [hplan] at hplace hanswer hother
  have hnumber := (hplace 0 0 ⟨1, ⟨0, 4⟩⟩ rfl rfl).1
  subst hnumber
  refine ⟨rfl, ⟨result, hresult, hother refusing () hanswer⟩, ?_⟩
  unfold readTagsPlanned
  rw [hplan]
  rfl

end Transport

end DataBlock
