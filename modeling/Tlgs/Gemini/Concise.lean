import Tlgs.Gemini.Document

/-!
# What is left out of a document

`extractGeminiConcise` is `extractGemini` of the nodes that it does not skip. It skips no
link and no heading, so both find the same links and the same title.
-/
namespace Tlgs

open Bytes

/-- The nodes that `extractGeminiConcise` does not skip. -/
def keptFrom (firstContent : Bool) : List GeminiASTNode → List GeminiASTNode
  | [] => []
  | node :: nodes =>
    match node.type with
    | .preformattedText =>
      if skipsPreformatted firstContent node then keptFrom firstContent nodes
      else node :: keptFrom firstContent nodes
    | .text =>
      if node.text = [] then node :: keptFrom firstContent nodes
      else if skipsText node.text then keptFrom false nodes
      else node :: keptFrom false nodes
    | _ => node :: keptFrom firstContent nodes

theorem extractConciseFrom_eq (firstContent : Bool) (doc : GeminiDocument)
    (nodes : List GeminiASTNode) :
    extractConciseFrom firstContent doc nodes =
      (keptFrom firstContent nodes).foldl addNode doc := by
  fun_induction extractConciseFrom firstContent doc nodes <;> simp_all [keptFrom]

theorem extractGeminiConcise_eq (nodes : List GeminiASTNode) :
    extractGeminiConcise nodes = extractGemini (keptFrom true nodes) :=
  extractConciseFrom_eq true {} nodes

/-! ### Leaving out nodes without links and titles -/

/-- `kept` is what is left of `nodes` without some preformatted blocks and text lines. -/
inductive LeavesOut : List GeminiASTNode → List GeminiASTNode → Prop
  | nil : LeavesOut [] []
  | keep {nodes kept : List GeminiASTNode} (node : GeminiASTNode) (rest : LeavesOut nodes kept) :
      LeavesOut (node :: nodes) (node :: kept)
  | skip {nodes kept : List GeminiASTNode} {node : GeminiASTNode}
      (plain : node.type = .preformattedText ∨ node.type = .text) (rest : LeavesOut nodes kept) :
      LeavesOut (node :: nodes) kept

theorem leavesOut_keptFrom (firstContent : Bool) (nodes : List GeminiASTNode) :
    LeavesOut nodes (keptFrom firstContent nodes) := by
  induction nodes generalizing firstContent with
  | nil => exact .nil
  | cons node nodes ih =>
    simp only [keptFrom]
    split
    next preformatted =>
      -- every `continue` is on one of these two types
      split
      · exact .skip (.inl preformatted) (ih _)
      · exact .keep node (ih _)
    next text =>
      split
      · exact .keep node (ih _)
      · split
        · exact .skip (.inr text) (ih _)
        · exact .keep node (ih _)
    next => exact .keep node (ih _)

/-- Two documents differ in nothing but their text. -/
def SameOutside (doc doc' : GeminiDocument) : Prop :=
  doc.links = doc'.links ∧ doc.title = doc'.title

theorem SameOutside.add {doc doc' : GeminiDocument} (same : SameOutside doc doc')
    (node : GeminiASTNode) :
    SameOutside (addNode doc node) (addNode doc' node) := by
  obtain ⟨links, title⟩ := same
  simp only [addNode, SameOutside]
  split
  · exact ⟨by rw [links], title⟩
  · rw [title]
    split
    · exact ⟨links, rfl⟩
    · exact ⟨links, rfl⟩
  · exact ⟨links, title⟩

/-- A node that may be left out changes nothing but the text. -/
theorem sameOutside_addNode {node : GeminiASTNode}
    (plain : node.type = .preformattedText ∨ node.type = .text) (doc : GeminiDocument) :
    SameOutside doc (addNode doc node) := by
  rcases plain with type | type <;> simp [addNode, SameOutside, type]

theorem LeavesOut.sameOutside {nodes kept : List GeminiASTNode} (left : LeavesOut nodes kept)
    {doc doc' : GeminiDocument} (same : SameOutside doc doc') :
    SameOutside (kept.foldl addNode doc) (nodes.foldl addNode doc') := by
  induction left generalizing doc doc' with
  | nil => exact same
  | keep node _ ih => exact ih (same.add node)
  | skip plain _ ih =>
    -- the longer document goes one node ahead
    have later := sameOutside_addNode plain doc'
    exact ih ⟨same.1.trans later.1, same.2.trans later.2⟩

/-! ### The text -/

@[simp] theorem addNode_text (doc : GeminiDocument) (node : GeminiASTNode) :
    (addNode doc node).text = doc.text ++ (node.text ++ [10]) := by
  simp only [addNode]
  split
  · simp
  · split <;> simp
  · simp

/-- Each node on a line of its own. -/
def lines (nodes : List GeminiASTNode) : Str := nodes.flatMap fun node => node.text ++ [10]

theorem extractGemini_text (nodes : List GeminiASTNode) :
    (extractGemini nodes).text = lines nodes := by
  suffices from_ : ∀ doc, (nodes.foldl addNode doc).text = doc.text ++ lines nodes from from_ {}
  induction nodes with
  | nil => simp [lines]
  | cons node nodes ih =>
    intro doc
    rw [List.foldl_cons, ih, addNode_text, List.append_assoc]
    rfl

/-- The short text is the text without some preformatted blocks and text lines, and links and
title are the same. -/
theorem extractGeminiConcise_leavesOut (nodes : List GeminiASTNode) :
    (extractGeminiConcise nodes).links = (extractGemini nodes).links ∧
      (extractGeminiConcise nodes).title = (extractGemini nodes).title ∧
      (extractGemini nodes).text = lines nodes ∧
      ∃ kept, LeavesOut nodes kept ∧ (extractGeminiConcise nodes).text = lines kept := by
  have left := leavesOut_keptFrom true nodes
  have same : SameOutside (extractGemini (keptFrom true nodes)) (extractGemini nodes) :=
    left.sameOutside ⟨rfl, rfl⟩
  rw [extractGeminiConcise_eq]
  exact ⟨same.1, same.2, extractGemini_text nodes, _, left, extractGemini_text _⟩

end Tlgs
