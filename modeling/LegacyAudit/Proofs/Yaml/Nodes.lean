import LegacyAudit.Proofs.Yaml.Events
import LegacyAudit.Yaml.Node

/-!
# The node of a document

A builder that takes in the events of a value puts the node of that value in its place. So a
document that is written is read as the tree it was written from.

## Main definitions

- `Content.node` - the node of a value
- `NodeBuilder.foldlM_events` - a builder takes in the events of a value
- `Document.ofText_documentText` - a document is read as its tree
-/

namespace LegacyAudit.Yaml

open Text

namespace Content

mutual

def node : Content → Node
  | .text value => .scalar none none (styleFor value) value
  | .number value => .scalar none none .plain (decimal value)
  | .list items => .sequence none none (itemNodes items)
  | .record members => .mapping none none (memberNodes members)

def itemNodes : List Content → List Node
  | [] => []
  | item :: rest => item.node :: itemNodes rest

def memberNodes : List (String × Content) → List (Node × Node)
  | [] => []
  | (key, value) :: rest => (.scalar none none .plain key, value.node) :: memberNodes rest

end

end Content

open Content

namespace NodeBuilder

theorem foldlM_collection {b : NodeBuilder} {start stop : Event} {parts : List Event}
    {opened filled : OpenNode} {node : Node}
    (hstart : b.step start = .ok { b with opened := opened :: b.opened })
    (hparts : parts.foldlM step { b with opened := opened :: b.opened } =
      .ok { b with opened := filled :: b.opened })
    (hstop : step { b with opened := filled :: b.opened } stop = .ok (b.place node)) :
    (start :: parts ++ [stop]).foldlM step b = .ok (b.place node) := by
  rw [List.cons_append, List.foldlM_cons, hstart]
  change (parts ++ [stop]).foldlM step _ = _
  rw [List.foldlM_append, hparts]
  change [stop].foldlM step _ = _
  rw [List.foldlM_cons, hstop]
  rfl

mutual

theorem foldlM_events : ∀ (value : Content) (b : NodeBuilder),
    value.events.foldlM step b = .ok (b.place value.node)
  | .text value, b => by
    change Except.ok (b.place (.scalar none none (styleFor value) (String.ofList value.toList))) = _
    rw [String.ofList_toList]
    rfl
  | .number value, b => rfl
  | .list items, b =>
    foldlM_collection rfl (foldlM_itemEvents items [] b) (by simp [step, close, node])
  | .record members, b =>
    foldlM_collection rfl (foldlM_memberEvents members [] b) (by simp [step, close, node])

theorem foldlM_itemEvents : ∀ (items : List Content) (done : List Node) (b : NodeBuilder),
    (itemEvents items).foldlM step { b with opened := .sequence none none done :: b.opened } =
      .ok { b with
        opened := .sequence none none ((itemNodes items).reverse ++ done) :: b.opened }
  | [], done, b => rfl
  | item :: rest, done, b => by
    have hitem := foldlM_events item { b with opened := .sequence none none done :: b.opened }
    have hrest := foldlM_itemEvents rest (item.node :: done) b
    rw [itemEvents, List.foldlM_append, hitem, itemNodes, List.reverse_cons, List.append_assoc]
    exact hrest

theorem foldlM_memberEvents : ∀ (members : List (String × Content)) (done : List (Node × Node))
    (b : NodeBuilder),
    (memberEvents members).foldlM step
        { b with opened := .mapping none none done none :: b.opened } =
      .ok { b with
        opened := .mapping none none ((memberNodes members).reverse ++ done) none :: b.opened }
  | [], done, b => rfl
  | (key, value) :: rest, done, b => by
    let keyNode : Node := .scalar none none .plain key
    have hvalue := foldlM_events value
      { b with opened := .mapping none none done (some keyNode) :: b.opened }
    have hrest := foldlM_memberEvents rest ((keyNode, value.node) :: done) b
    have hkey : step { b with opened := .mapping none none done none :: b.opened }
        (.scalar none none .plain key.toList) =
          .ok { b with opened := .mapping none none done (some keyNode) :: b.opened } := by
      change Except.ok _ = _
      rw [String.ofList_toList]
      rfl
    rw [memberEvents, List.cons_append, List.foldlM_cons, hkey]
    change (value.events ++ memberEvents rest).foldlM step _ = _
    rw [List.foldlM_append, hvalue, memberNodes, List.reverse_cons, List.append_assoc]
    exact hrest

end

end NodeBuilder

mutual

theorem isPart_of_mem_events : ∀ (value : Content), ∀ e ∈ value.events, Document.isPart e = true
  | .text _, e, h => by
    rw [List.mem_singleton.mp h]
    rfl
  | .number _, e, h => by
    rw [List.mem_singleton.mp h]
    rfl
  | .list items, e, h => by
    simp only [events, List.cons_append, List.mem_cons, List.mem_append, List.not_mem_nil,
      or_false] at h
    rcases h with rfl | h | rfl
    · rfl
    · exact isPart_of_mem_itemEvents items e h
    · rfl
  | .record members, e, h => by
    simp only [events, List.cons_append, List.mem_cons, List.mem_append, List.not_mem_nil,
      or_false] at h
    rcases h with rfl | h | rfl
    · rfl
    · exact isPart_of_mem_memberEvents members e h
    · rfl

theorem isPart_of_mem_itemEvents : ∀ (items : List Content), ∀ e ∈ itemEvents items,
    Document.isPart e = true
  | [], _, h => absurd h List.not_mem_nil
  | item :: rest, e, h => by
    rcases List.mem_append.mp h with h | h
    · exact isPart_of_mem_events item e h
    · exact isPart_of_mem_itemEvents rest e h

theorem isPart_of_mem_memberEvents : ∀ (members : List (String × Content)),
    ∀ e ∈ memberEvents members, Document.isPart e = true
  | [], _, h => absurd h List.not_mem_nil
  | (key, value) :: rest, e, h => by
    simp only [memberEvents, List.cons_append, List.mem_cons, List.mem_append] at h
    rcases h with rfl | h | h
    · rfl
    · exact isPart_of_mem_events value e h
    · exact isPart_of_mem_memberEvents rest e h

end

theorem Document.ofEvents_events (value : Content) :
    ∃ d, Document.ofEvents (.documentStart :: value.events ++ [.documentEnd]) = .ok d ∧
      d.root = some value.node := by
  let all : List Event := .documentStart :: value.events ++ [.documentEnd]
  have hcount : all.count .documentStart = 1 := by
    have hnot : Event.documentStart ∉ value.events := fun h =>
      absurd (isPart_of_mem_events value _ h) (by decide)
    simp [all, List.count_eq_zero.mpr hnot]
  have hfold : all.foldlM NodeBuilder.step {} = .ok { root := some value.node } := by
    change (value.events ++ [Event.documentEnd]).foldlM NodeBuilder.step {} = _
    rw [List.foldlM_append, NodeBuilder.foldlM_events]
    rfl
  refine ⟨⟨some value.node, value.node.numberedOnto [], all.countP isPart⟩, ?_, rfl⟩
  rw [Document.ofEvents, if_neg (by rw [hcount]; decide)]
  change (all.foldlM NodeBuilder.step {} >>= _) = _
  rw [hfold]
  rfl

theorem Document.ofText_documentText {members : List (String × Content)}
    (hregular : (Content.record members).Regular) :
    ∃ d, Document.ofText (documentText members) = .ok d ∧
      d.root = some (Content.record members).node := by
  rw [Document.ofText, Token.ofText_documentText hregular]
  change ∃ d, (Event.ofTokens _ >>= _) = _ ∧ _
  rw [Event.ofTokens_tokens hregular]
  exact Document.ofEvents_events (.record members)

end LegacyAudit.Yaml
