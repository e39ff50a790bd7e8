import PrettyPayload.Proofs.Markup.Reparse

/-!
# The parts of a document that was read

A plain XML document without carriage returns has parts, and the document made from it consists of
these.
-/

namespace PrettyPayload

namespace Markup

open PrettyPayload.Tree Xml

variable {t : Text} {source : Source}

theorem isRemark_toXml (v : Node) : v.toXml.isRemark = v.isRemark := by
  cases v <;> rfl

/-- The comments and instructions that were read at the top level are made into such. -/
theorem exists_remarks (vs : List Xml.Node) (h : ∀ v ∈ vs, v.Sound ∧ v.isRemark = true)
    (hplain : ∀ v ∈ vs, v.Plain) :
    ∃ rs, EachOfAll AsRead rs ∧ mapAll Node.toXml rs = vs.map (Tree.node · []) ∧
      ∀ r ∈ rs, IsRemark r ∧ r.value.toXml ∈ vs := by
  have hsound : EachOfAll SoundAt (vs.map (Tree.node · [])) := by
    refine eachOfAll_iff.2 (List.forall_mem_map.2 ?_)
    exact fun v hv => ⟨⟨(h v hv).1, fun _ => rfl, trivial⟩, trivial⟩
  have hall : AllOfAll Node.Plain (vs.map (Tree.node · [])) :=
    allOfAll_iff.2 (List.forall_mem_map.2 fun v hv => ⟨hplain v hv, trivial⟩)
  obtain ⟨rs, hrs, hmap⟩ := exists_asRead_all _ hsound hall
  refine ⟨rs, hrs, hmap, ?_⟩
  intro r hr
  have hmem : r.map Node.toXml ∈ vs.map (Tree.node · []) := by
    rw [← hmap, mapAll_eq_map]
    exact List.mem_map_of_mem hr
  obtain ⟨v, hv, heq⟩ := List.mem_map.1 hmem
  have hvalue : r.value.toXml = v := by
    rw [← value_map Node.toXml r, ← heq]
    rfl
  refine ⟨⟨Each.mono (fun _ _ h => h.toWritableAt) r (eachOfAll_iff.1 hrs r hr), ?_⟩, ?_⟩
  · rw [← isRemark_toXml, hvalue]
    exact (h v hv).2
  · rw [hvalue]
    exact hv

theorem Parts.exists_of_parse? (ht : '\r' ∉ t) (h : Source.parse? t = some source)
    (hplain : source.Plain t) :
    ∃ p : Parts, EachOfAll AsRead p.trees ∧ (∀ w ∈ p.declaration, '\r' ∉ w) ∧
      ∃ d, Document.ofXml? t = some d ∧ d.flavor = .xml ∧
        d.tree.map Prod.snd = .node .document p.nodes := by
  have hsound := Source.sound_of_parse? ht h hplain.doctype
  obtain ⟨root, after, hcontent, helement, hroot, hafter⟩ := hsound.content
  have hall := hplain.content
  rw [hcontent] at hall
  obtain ⟨rs, hrs, hrsMap, hrsRemark⟩ := exists_remarks
    (source.remarks.map Placed.value)
    (List.forall_mem_map.2 fun r hr => ⟨(hsound.remarks r hr).1, (hsound.remarks r hr).2.1⟩)
    (List.forall_mem_map.2 hplain.remarks)
  obtain ⟨root, hrootRead, rfl⟩ := exists_asRead root hroot hall.1
  obtain ⟨as, has, hasMap, hasRemark⟩ := exists_remarks after hafter fun v hv =>
    (allOfAll_iff.1 hall.2 _ (List.mem_map_of_mem hv)).1
  have hdeclaration (w : Text) (hw : w ∈ xmlDeclaration? t) :=
    isDeclaration_of_xmlDeclaration? ht h hplain hw
  have hwritable := Each.mono (fun _ _ h => h.toWritableAt) root hrootRead
  rw [value_map, isElement_toXml] at helement
  let p : Parts :=
    { declaration := xmlDeclaration? t
      remarks := rs
      root := root
      after := as
      isDeclaration := fun w hw => ⟨(hdeclaration w hw).1, (hdeclaration w hw).2.2⟩
      isRemark := by
        intro r hr
        refine ⟨(hrsRemark r hr).1, fun hwithin => ?_⟩
        obtain ⟨remark, hremark, heq⟩ := List.mem_map.1 (hrsRemark r hr).2
        rw [← heq] at hwithin
        exact Text.breakAt?_eq_none_iff.1 hplain.prolog
          (hwithin.trans (hsound.remarks remark hremark).2.2)
      isRoot := ⟨hwritable, helement⟩
      isAfter := fun r hr => (hasRemark r hr).1 }
  refine ⟨p, ?_, fun w hw => (hdeclaration w hw).2.1, ?_⟩
  · exact eachOfAll_iff.2 (List.forall_mem_append.2
      ⟨eachOfAll_iff.1 hrs, List.forall_mem_cons.2 ⟨hrootRead, eachOfAll_iff.1 has⟩⟩)
  · refine Document.ofXml?_eq_some h (by rw [findDoctype?, hplain.prolog]; rfl) ?_
      p.writableAt_trees
    rw [hcontent, ← hasMap]
    rw [List.map_map] at hrsMap
    simp only [p, Parts.trees, mapAll_eq_map, List.map_append, List.map_cons] at hrsMap ⊢
    exact congrArg (· ++ _) hrsMap

end Markup

end PrettyPayload
