import DataBlock.Proofs.Plan.Budget
import DataBlock.Proofs.Reading.Agreement
import DataBlock.Proofs.Reading.Routing
/-!
# Requests that fail as a whole

A read that fails gives its error to its tag as it is.  A request of several
items that fails gives each of its tags another error, with the text of the
first one behind the mark of a fault of the transport.  So a caller can tell
whether a tag had its request to itself: without a connection, tags read by plan
and tags read one by one have the same results only if every request of the plan
has a single item.
-/

namespace DataBlock

namespace Error

inductive Kind where
  | codec
  | transport
  | config
  | tag
  | mismatch
  | overflow
  deriving DecidableEq, Repr

def kind : Error → Kind
  | codec _ => .codec
  | transport _ => .transport
  | config _ | line .. => .config
  | tag .. => .tag
  | mismatch .. => .mismatch
  | overflow => .overflow

/-- Errors that a caller cannot tell apart: of one kind and with one text. -/
structure Alike (e e' : Error) : Prop where
  kind_eq : e.kind = e'.kind
  message_eq : e.message = e'.message

def ofRequest (e : Error) : Error := .transport (.other e.message)

theorem message_ofRequest (e : Error) : e.ofRequest.message = "TransportError - " ++ e.message :=
  rfl

theorem not_alike_ofRequest (e : Error) : ¬ e.ofRequest.Alike e := by
  intro h
  have hlength := congrArg String.length h.message_eq
  rw [message_ofRequest, String.length_append] at hlength
  have hmark : "TransportError - ".length = 17 := rfl
  omega

end Error

inductive SameResult : Except Error Value → Except Error Value → Prop where
  | ok (v : Value) : SameResult (.ok v) (.ok v)
  | error {e e' : Error} (h : e.Alike e') : SameResult (.error e) (.error e')

def SameResults {ν : Type} : List (ν × Except Error Value) → List (ν × Except Error Value) → Prop :=
  List.Forall₂ fun a b => a.1 = b.1 ∧ SameResult a.2 b.2

theorem SameResult.refl : ∀ result, SameResult result result
  | .ok v => .ok v
  | .error _ => .error ⟨rfl, rfl⟩

theorem SameResults.of_eq {ν : Type} {results results' : List (ν × Except Error Value)}
    (h : results = results') : SameResults results results' := by
  subst h
  apply List.forall₂_same.2
  intro entry _
  exact ⟨rfl, SameResult.refl entry.2⟩

theorem SameResults.sameResult {ν : Type} {results results' : List (ν × Except Error Value)}
    (h : SameResults results results') {index : Nat} {entry entry' : ν × Except Error Value}
    (hentry : results[index]? = some entry) (hentry' : results'[index]? = some entry') :
    SameResult entry.2 entry'.2 :=
  (rel_of_forall₂ h hentry hentry').2

namespace Transport

open Plan

variable {σ ν : Type}

/-- A request that fails has several items, which were read together. -/
theorem readMany_of_ask_eq_error {t : Transport σ} {request : Request} {s : σ} {e : Error}
    (h : (t.ask request s).1 = .error e) :
    request.items.length ≠ 1 ∧ (t.readMany request.spans s).1 = .error e := by
  rcases request with ⟨block, _ | ⟨item, _ | ⟨next, items⟩⟩⟩
  · exact ⟨by simp, h⟩
  · cases h
  · exact ⟨by simp, h⟩

theorem exists_ask_of_answers {t : Transport σ} {requests : List Request} {s : σ} {number : Nat}
    {request : Request} {answer : Answer} (hrequest : requests[number]? = some request)
    (hanswer : (t.answers requests s)[number]? = some answer) :
    ∃ s', (t.ask request s').1 = answer := by
  have hall : List.Forall₂ (fun r a => ∃ s', (t.ask r s').1 = a) requests (t.answers requests s) :=
    forall₂_answers (P := fun _ => True) (fun r _ s' _ => ⟨⟨s', rfl⟩, trivial⟩) trivial
  exact rel_of_forall₂ hall hrequest hanswer

/-- The item at a position stands for a tag, which has the result that the answer
to the request gives to the position. -/
theorem exists_result_of_item (t : Transport σ) (planner : Planner) (tags : List (ν × Tag)) (s : σ)
    {number position : Nat} {request : Request} {item : Item} {answer : Answer}
    (hrequest : (planner.plan (tags.map (·.2)))[number]? = some request)
    (hitem : request.items[position]? = some item)
    (hanswer : (t.answers (planner.plan (tags.map (·.2))) s)[number]? = some answer) :
    ∃ name tag result, tags[item.index]? = some (name, tag) ∧
      (t.readTagsPlanned planner tags s).1[item.index]? = some (name, result) ∧
      request.Gives position tag answer result := by
  obtain ⟨tag, htag, -⟩ :=
    exists_tag_of_mem_plan (List.mem_of_getElem? hrequest) (List.mem_of_getElem? hitem)
  rw [List.getElem?_map, Option.map_eq_some_iff] at htag
  obtain ⟨⟨name, tag⟩, hnamed, rfl⟩ := htag
  obtain ⟨result, hresult, hgives⟩ := t.exists_result planner tags s hrequest hitem hanswer hnamed
  exact ⟨name, tag, result, hnamed, hresult, hgives⟩

theorem result_of_refused (t : Transport σ) (planner : Planner) (tags : List (ν × Tag)) (s : σ)
    {number : Nat} {request : Request} {item : Item} {e : Error}
    (hrequest : (planner.plan (tags.map (·.2)))[number]? = some request)
    (hanswer : (t.answers (planner.plan (tags.map (·.2))) s)[number]? = some (.error e))
    (hitem : item ∈ request.items) :
    ∃ name tag, tags[item.index]? = some (name, tag) ∧
      (t.readTagsPlanned planner tags s).1[item.index]? = some (name, .error e.ofRequest) := by
  obtain ⟨position, hposition⟩ := List.mem_iff_getElem?.1 hitem
  obtain ⟨name, tag, result, htag, hresult, hgives⟩ :=
    t.exists_result_of_item planner tags s hrequest hposition hanswer
  cases hgives
  exact ⟨name, tag, htag, hresult⟩

theorem result_of_alone (t : Transport σ) (planner : Planner) (tags : List (ν × Tag)) (s : σ)
    {number : Nat} {request : Request} {item : Item} {e : Error}
    (hrequest : (planner.plan (tags.map (·.2)))[number]? = some request)
    (hanswer : (t.answers (planner.plan (tags.map (·.2))) s)[number]? = some (.ok [.error e]))
    (hitem : request.items = [item]) :
    ∃ name tag, tags[item.index]? = some (name, tag) ∧
      (t.readTagsPlanned planner tags s).1[item.index]? = some (name, .error e) := by
  have hposition : request.items[0]? = some item := by
    rw [hitem]
    rfl
  obtain ⟨name, tag, result, htag, hresult, hgives⟩ :=
    t.exists_result_of_item planner tags s hrequest hposition hanswer
  refine ⟨name, tag, htag, ?_⟩
  cases hgives with
  | miscounted hcount => exact absurd (by rw [hitem]; rfl) hcount
  | reply hcount hreply hreads =>
      obtain rfl := Option.some.inj hreply
      cases hreads
      exact hresult

theorem readTag_of_read_eq_error {t : Transport σ} {tag : Tag} {s : σ} {e : Error}
    (h : (t.read tag.block tag.span s).1 = .error e) : (t.readTag tag s).1 = .error e := by
  change tag.decodeReply (t.read tag.block tag.span s).1 = .error e
  rw [h]
  rfl

theorem answers_of_yields {t : Transport σ} {P : σ → Prop} {requests : List Request}
    {answer : Request → Answer} (h : ∀ r ∈ requests, Yields P (t.ask r) (answer r)) {s : σ}
    (hs : P s) : t.answers requests s = requests.map answer := by
  have hall : List.Forall₂ (fun r a => a = answer r) requests (t.answers requests s) :=
    forall₂_answers h hs
  rw [← List.forall₂_eq_eq_eq, List.forall₂_map_right_iff]
  exact hall.flip

end Transport

/-! ## Without a connection -/

namespace Memory

open Plan Transport

variable {ν : Type}

def refusal (request : Request) : Answer :=
  if request.items.length = 1 then .ok [.error (.transport .notConnected)]
  else .error (.transport .notConnected)

theorem yields_read_unconnected (block : UInt16) (span : Span) :
    Yields (fun m => m.connected = false) (transport.read block span)
      (.error (.transport .notConnected)) := by
  intro m hm
  simp [transport, roundTrip, hm]

theorem yields_ask_unconnected (request : Request) :
    Yields (fun m => m.connected = false) (transport.ask request) (refusal request) := by
  rcases request with ⟨block, _ | ⟨item, _ | ⟨next, items⟩⟩⟩
  · intro m hm
    simp [ask, transport, roundTrip, refusal, hm]
  · exact (yields_read_unconnected block item.span).map fun reply => Except.ok [reply]
  · intro m hm
    simp [ask, transport, roundTrip, refusal, hm]

theorem readTags_unconnected {m : Memory} (hm : m.connected = false) (tags : List (ν × Tag)) :
    (transport.readTags tags m).1 =
      tags.map fun entry => (entry.1, .error (.transport .notConnected)) := by
  have hyields : Yields (fun m => m.connected = false) (transport.readTags tags)
      (tags.map fun entry => (entry.1, .error (.transport .notConnected))) := by
    apply Yields.mapM
    rintro ⟨name, tag⟩ -
    have htag : Yields (fun m => m.connected = false) (transport.readTag tag)
        (.error (.transport .notConnected)) :=
      (yields_read_unconnected tag.block tag.span).map tag.decodeReply
    exact htag.map (name, ·)
  exact (hyields m hm).1

theorem readTagsPlanned_unconnected {m : Memory} (hm : m.connected = false) (planner : Planner)
    (tags : List (ν × Tag)) {request : Request} (hrequest : request ∈ planner.plan (tags.map (·.2)))
    {item : Item} (hitem : item ∈ request.items) :
    ∃ name tag, tags[item.index]? = some (name, tag) ∧
      (transport.readTagsPlanned planner tags m).1[item.index]? =
        some (name, .error (if request.items.length = 1 then .transport .notConnected
          else (Error.transport .notConnected).ofRequest)) := by
  obtain ⟨number, hnumber⟩ := List.mem_iff_getElem?.1 hrequest
  have hanswers : transport.answers (planner.plan (tags.map (·.2))) m =
      (planner.plan (tags.map (·.2))).map refusal :=
    answers_of_yields (fun r _ => yields_ask_unconnected r) hm
  have hanswer : (transport.answers (planner.plan (tags.map (·.2))) m)[number]? =
      some (refusal request) := by
    rw [hanswers, List.getElem?_map, hnumber]
    rfl
  unfold refusal at hanswer
  split at hanswer
  · next hone =>
    obtain ⟨only, honly⟩ := List.length_eq_one_iff.1 hone
    obtain rfl : item = only := by
      rw [honly] at hitem
      exact List.mem_singleton.1 hitem
    rw [if_pos hone]
    exact transport.result_of_alone planner tags m hnumber hanswer honly
  · next hmany =>
    rw [if_neg hmany]
    exact transport.result_of_refused planner tags m hnumber hanswer hitem

/-- Where every tag has its request to itself, planned reading says the same. -/
theorem readTagsPlanned_eq_readTags_unconnected {m : Memory} (hm : m.connected = false)
    {planner : Planner} {tags : List (ν × Tag)}
    (h : ∀ request ∈ planner.plan (tags.map (·.2)), request.items.length = 1) :
    (transport.readTagsPlanned planner tags m).1 = (transport.readTags tags m).1 := by
  apply List.ext_getElem?
  intro index
  rw [readTags_unconnected hm, List.getElem?_map]
  rcases htag : tags[index]? with _ | ⟨name, tag⟩
  · have hlength := congrArg List.length (transport.names_readTagsPlanned planner tags m)
    rw [List.length_map, List.length_map] at hlength
    apply List.getElem?_eq_none
    rw [hlength]
    exact List.getElem?_eq_none_iff.1 htag
  · have hplace : (tags.map (·.2))[index]? = some tag := by simp [htag]
    obtain ⟨number, position, request, hnumber, hposition, -⟩ := exists_place planner hplace
    have hrequest := List.mem_of_getElem? hnumber
    obtain ⟨name', tag', htag', hplanned⟩ :=
      readTagsPlanned_unconnected hm planner tags hrequest (List.mem_of_getElem? hposition)
    rw [htag, Option.some.injEq, Prod.mk.injEq] at htag'
    rw [hplanned, if_pos (h request hrequest), ← htag'.1]
    rfl

theorem sameResults_unconnected_iff {m : Memory} (hm : m.connected = false) (planner : Planner)
    (tags : List (ν × Tag)) :
    SameResults (transport.readTagsPlanned planner tags m).1 (transport.readTags tags m).1 ↔
      ∀ request ∈ planner.plan (tags.map (·.2)), request.items.length = 1 := by
  constructor
  · intro h request hrequest
    by_contra hmany
    obtain ⟨item, hitem⟩ := List.exists_mem_of_ne_nil _ (within_of_mem_plan hrequest).ne_nil
    obtain ⟨name, tag, htag, hplanned⟩ := readTagsPlanned_unconnected hm planner tags hrequest hitem
    have hplain : (transport.readTags tags m).1[item.index]? =
        some (name, .error (.transport .notConnected)) := by
      rw [readTags_unconnected hm, List.getElem?_map, htag]
      rfl
    rw [if_neg hmany] at hplanned
    cases h.sameResult hplanned hplain with
    | error halike => exact Error.not_alike_ofRequest _ halike
  · intro h
    exact SameResults.of_eq (readTagsPlanned_eq_readTags_unconnected hm h)

end Memory

namespace Transport

open Plan

variable {σ ν : Type}

/-- A request that fails as a whole is one of several items, and every tag of it gets
an error of the transport with the text of the failure behind one more mark,
which is never the error that the transport gave.  A tag alone in its request,
and a tag read on its own, gets the error of its read as it is.  So without a
connection to memory, reading by plan and reading one by one can be told apart
unless every request of the plan has a single item. -/
theorem readTagsPlanned_failures (t : Transport σ) (s : σ) (planner : Planner)
    (tags : List (ν × Tag)) :
    let requests := planner.plan (tags.map (·.2))
    (∀ (number : Nat) (request : Request) (e : Error), requests[number]? = some request →
      (t.answers requests s)[number]? = some (.error e) →
      1 < request.items.length ∧ (∃ s', (t.readMany request.spans s').1 = .error e) ∧
      ∀ item ∈ request.items, ∃ name tag, tags[item.index]? = some (name, tag) ∧
        (t.readTagsPlanned planner tags s).1[item.index]? = some (name, .error e.ofRequest)) ∧
    (∀ e : Error, e.ofRequest.kind = .transport ∧
      e.ofRequest.message = "TransportError - " ++ e.message ∧ ¬ e.ofRequest.Alike e) ∧
    (∀ (number : Nat) (request : Request) (item : Item) (e : Error),
      requests[number]? = some request → request.items = [item] →
      (t.answers requests s)[number]? = some (.ok [.error e]) →
      ∃ name tag, tags[item.index]? = some (name, tag) ∧
        (t.readTagsPlanned planner tags s).1[item.index]? = some (name, .error e)) ∧
    (∀ (tag : Tag) (e : Error), (t.read tag.block tag.span s).1 = .error e →
      (t.readTag tag s).1 = .error e) ∧
    ∀ m : Memory, m.connected = false →
      ((Memory.transport.readTags tags m).1 =
        tags.map fun entry => (entry.1, .error (.transport .notConnected))) ∧
      (SameResults (Memory.transport.readTagsPlanned planner tags m).1
        (Memory.transport.readTags tags m).1 ↔
        ∀ request ∈ requests, request.items.length = 1) := by
  intro requests
  refine ⟨?_, ?_, ?_, fun tag e h => readTag_of_read_eq_error h, ?_⟩
  · intro number request e hrequest hanswer
    obtain ⟨s', hask⟩ := exists_ask_of_answers hrequest hanswer
    obtain ⟨hmany, hreadMany⟩ := readMany_of_ask_eq_error hask
    have hne := (within_of_mem_plan (List.mem_of_getElem? hrequest)).ne_nil
    have hpos := List.length_pos_iff.2 hne
    refine ⟨by omega, ⟨s', hreadMany⟩, ?_⟩
    intro item hitem
    exact t.result_of_refused planner tags s hrequest hanswer hitem
  · intro e
    exact ⟨rfl, e.message_ofRequest, e.not_alike_ofRequest⟩
  · intro number request item e hrequest hitem hanswer
    exact t.result_of_alone planner tags s hrequest hanswer hitem
  · intro m hm
    exact ⟨Memory.readTags_unconnected hm tags, Memory.sameResults_unconnected_iff hm planner tags⟩

/-- Gauges that are read without a connection: two of them share a request. -/
theorem gauges_unconnected :
    Memory.empty.connected = false ∧
    (∃ name tag, gauges[0]? = some (name, tag) ∧
      (Memory.transport.readTagsPlanned Planner.standard gauges Memory.empty).1[0]? =
        some (name, .error (Error.transport .notConnected).ofRequest)) ∧
    (∃ name tag, gauges[1]? = some (name, tag) ∧
      (Memory.transport.readTagsPlanned Planner.standard gauges Memory.empty).1[1]? =
        some (name, .error (.transport .notConnected))) ∧
    (∀ tag, (Memory.transport.readTag tag Memory.empty).1 =
      .error (.transport .notConnected)) ∧
    ¬ SameResults (Memory.transport.readTagsPlanned Planner.standard gauges Memory.empty).1
      (Memory.transport.readTags gauges Memory.empty).1 := by
  have hplan : Planner.standard.plan (gauges.map (·.2)) =
      [⟨2, [⟨1, ⟨0, 4⟩⟩]⟩, ⟨5, [⟨0, ⟨0, 2⟩⟩, ⟨2, ⟨2, 2⟩⟩]⟩] := by
    cbv
  have h := readTagsPlanned_failures Memory.transport Memory.empty Planner.standard gauges
  rw [hplan] at h
  obtain ⟨hrefused, -, halone, hplain, hmemory⟩ := h
  refine ⟨rfl, ?_, ?_, fun tag => hplain tag _ rfl, ?_⟩
  · exact (hrefused 1 _ _ rfl rfl).2.2 ⟨0, ⟨0, 2⟩⟩ (by simp)
  · exact halone 0 _ ⟨1, ⟨0, 4⟩⟩ _ rfl rfl rfl
  · intro hsame
    have hsingle := (hmemory Memory.empty rfl).2.1 hsame
    have hshared := hsingle ⟨5, [⟨0, ⟨0, 2⟩⟩, ⟨2, ⟨2, 2⟩⟩]⟩ (by simp)
    exact absurd hshared (by decide)

/-- The gauges' requests and reads fail alike, but the texts of their errors differ. -/
theorem unconnected_texts_differ :
    (Memory.transport.readMany [(5, ⟨0, 2⟩), (5, ⟨2, 2⟩)] Memory.empty).1 =
      .error (.transport .notConnected) ∧
    (Memory.transport.readTagsPlanned Planner.standard gauges Memory.empty).1 =
      [("level", .error (.transport (.other "TransportError - not connected"))),
        ("speed", .error (.transport .notConnected)),
        ("limit", .error (.transport (.other "TransportError - not connected")))] ∧
    (Memory.transport.readTags gauges Memory.empty).1 =
      [("level", .error (.transport .notConnected)), ("speed", .error (.transport .notConnected)),
        ("limit", .error (.transport .notConnected))] ∧
    (Error.transport (.other "TransportError - not connected")).message =
      "TransportError - TransportError - not connected" ∧
    (Error.transport .notConnected).message = "TransportError - not connected" := by
  have hplan : Planner.standard.plan (gauges.map (·.2)) =
      [⟨2, [⟨1, ⟨0, 4⟩⟩]⟩, ⟨5, [⟨0, ⟨0, 2⟩⟩, ⟨2, ⟨2, 2⟩⟩]⟩] := by
    cbv
  refine ⟨rfl, ?_, rfl, rfl, rfl⟩
  unfold readTagsPlanned
  rw [hplan]
  rfl

end Transport

end DataBlock
