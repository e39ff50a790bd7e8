import PrettyPayload.Format.Xml
import PrettyPayload.Proofs.Markup.Extent

/-!
# Formatted XML

Formatting keeps the outline of a plain XML payload, and a formatted payload is formatted already.
-/

namespace PrettyPayload

namespace Format

open Markup

theorem xml_eq_ok_of_ofXml? {t : Text} {d : Document} (options : Options)
    (h : Document.ofXml? (Text.withoutReturns t) = some d) :
    xml options t = ⟨[.xmlParsed d.size], .ok (d.serialize options)⟩ := by
  rw [xml, h]

/-- A plain XML payload is formatted without a fault, and the formatted payload is well formed and
has the same outline. It is formatted to itself where no element in preformatted content holds
nothing but empty texts. -/
theorem xml_keeps_outline {options : Options} {s : Text} {source : Xml.Source}
    (hindent : PlainIndent options)
    (hs : Xml.Source.parse? (Text.withoutReturns s) = some source)
    (hplain : source.Plain (Text.withoutReturns s)) :
    ∃ d o d', Document.ofXml? (Text.withoutReturns s) = some d ∧
      xml options s = ⟨[.xmlParsed d.size], .ok o⟩ ∧ (Xml.Source.parse? o).isSome ∧
      Document.ofXml? (Text.withoutReturns o) = some d' ∧
      outline false (d'.tree.map Prod.snd) = outline false (d.tree.map Prod.snd) ∧
      (Filled false (d.tree.map Prod.snd) →
        xml options o = ⟨[.xmlParsed d'.size], .ok o⟩) := by
  have hreturn : '\r' ∉ Text.withoutReturns s := by simp [Text.withoutReturns]
  obtain ⟨p, hread, hdeclaration, d, hd, hflavor, htree⟩ :=
    Parts.exists_of_parse? hreturn hs hplain
  have hindent' : PlainIndent options.withLineFeeds := hindent
  obtain ⟨d', hd', hflavor', htree'⟩ := p.ofXml?_text hindent'
  rw [← Parts.withoutReturns_text hindent hread hdeclaration] at hd'
  refine ⟨d, p.text options, d', hd, ?_, ?_, hd', ?_, ?_⟩
  · rw [xml_eq_ok_of_ofXml? options hd, Document.serialize_eq_text options hflavor htree]
  · obtain ⟨source', hparse, -⟩ := p.parse?_text hindent
    rw [hparse, Option.isSome_some]
  · rw [htree, htree']
    exact congrArg (fun ts => [Tree.node Node.document ts])
      (Parts.outlineAll_relaid hindent' rfl hread)
  · intro hfilled
    rw [htree] at hfilled
    rw [xml_eq_ok_of_ofXml? options hd', Document.serialize_eq_text options hflavor' htree',
      (Parts.text_relaid_iff options hindent' rfl hread).2 hfilled]

/-! ## Payloads -/

/-- A payload with a declaration, a comment and a carriage return. -/
def samplePage : Text :=
  "<?xml version='1.0'?>\r\n<!-- n --><a k='1'> x <b> y</b></a>".toList

def sampleBody : Text := "<a k='1'> x <b> y</b></a>".toList

def sampleTags : List Xml.Token :=
  [.startTag ⟨[], ['a']⟩ [(⟨[], ['k']⟩, ['1'])] .content, .characters " x ".toList,
    .startTag ⟨[], ['b']⟩ [] .content, .characters " y".toList, .endTag ⟨[], ['b']⟩,
    .endTag ⟨[], ['a']⟩]

def sampleSource : Xml.Source :=
  ⟨"<?xml version='1.0'?>\n<!-- n -->".toList, [⟨22, .comment " n ".toList⟩], none,
    [.node (.element ⟨none, ['a']⟩ [(⟨none, ['k']⟩, ['1'])] [])
      [.node (.text " x ".toList) [],
        .node (.element ⟨none, ['b']⟩ [] []) [.node (.text " y".toList) []]]]⟩

theorem withoutReturns_samplePage :
    Text.withoutReturns samplePage =
      "<?xml version='1.0'?>\n<!-- n -->".toList ++ sampleBody := by
  decide +kernel

theorem parse?_samplePage :
    Xml.Source.parse? (Text.withoutReturns samplePage) = some sampleSource := by
  have hbody : Xml.Source.body? ("<?xml version='1.0'?>\n<!-- n -->".toList ++ sampleBody) =
      some ("\n<!-- n -->".toList ++ sampleBody) := by decide +kernel
  have hremarks : Xml.remarks? 57 ("\n<!-- n -->".toList ++ sampleBody) =
      some ([⟨22, .comment " n ".toList⟩], sampleBody) := by decide +kernel
  have helement : Xml.element? sampleBody = some (sampleTags, []) := by decide +kernel
  have hexpand : Xml.expandAttributes [] Xml.nestingLimit 0 [(⟨[], ['k']⟩, ['1'])] =
      some ([(⟨[], ['k']⟩, ['1'])], 0) :=
    Xml.expandAttributes_escapeAttribute 0 [(⟨[], ['k']⟩, ['1'])]
  have hbuild : Xml.build [] Xml.nestingLimit true sampleTags .start =
      some ⟨[], sampleSource.content, [], false, 0⟩ := by
    refine (build_of_startTag? hexpand rfl).trans ?_
    rw [Xml.build]
    refine (build_of_startTag? rfl rfl).trans ?_
    rw [Xml.build]
    refine (build_of_endTag? rfl).trans ?_
    refine (build_of_endTag? rfl).trans ?_
    rw [Xml.build]
    rfl
  rw [withoutReturns_samplePage, Xml.Source.parse?_of_parts hbody hremarks rfl helement
    (Xml.remarks?_of_startsRemark_eq_false rfl) hbuild rfl rfl rfl]
  rfl

theorem plain_sampleSource : sampleSource.Plain (Text.withoutReturns samplePage) where
  doctype := rfl
  prolog := by decide +kernel
  remarks := List.forall_mem_singleton.2 trivial
  content := by
    have hx : '\r' ∉ " x ".toList := by decide
    have hy : '\r' ∉ " y".toList := by decide
    exact ⟨⟨rfl, ⟨hx, trivial⟩, ⟨rfl, ⟨hy, trivial⟩, trivial⟩, trivial⟩, trivial⟩
  declaration := by
    have hread : Xml.declaration? (" version='1.0'?>\n<!-- n -->".toList ++ sampleBody) =
        some ("\n<!-- n -->".toList ++ sampleBody) := by decide +kernel
    rw [withoutReturns_samplePage]
    intro u rest hu hrest
    have hsame : " version='1.0'?>\n<!-- n -->".toList ++ sampleBody = u :=
      (List.append_right_inj "<?xml".toList).1 hu
    subst hsame
    obtain rfl := Option.some.inj (hread.symm.trans hrest)
    exact ⟨" version='1.0'".toList, by decide +kernel⟩

/-- The sample with a tab for each level and carriage returns at the ends of lines. -/
theorem xml_keeps_outline_samplePage :
    PlainIndent ⟨['\t'], .crlf, true⟩ ∧
      Xml.Source.parse? (Text.withoutReturns samplePage) = some sampleSource ∧
      sampleSource.Plain (Text.withoutReturns samplePage) ∧
      ∃ d o d', Document.ofXml? (Text.withoutReturns samplePage) = some d ∧
        xml ⟨['\t'], .crlf, true⟩ samplePage = ⟨[.xmlParsed d.size], .ok o⟩ ∧
        (Xml.Source.parse? o).isSome ∧ Document.ofXml? (Text.withoutReturns o) = some d' ∧
        outline false (d'.tree.map Prod.snd) = outline false (d.tree.map Prod.snd) ∧
        (Filled false (d.tree.map Prod.snd) →
          xml ⟨['\t'], .crlf, true⟩ o = ⟨[.xmlParsed d'.size], .ok o⟩) := by
  have hindent : PlainIndent ⟨['\t'], .crlf, true⟩ := List.forall_mem_singleton.2 (Or.inr rfl)
  exact ⟨hindent, parse?_samplePage, plain_sampleSource,
    xml_keeps_outline hindent parse?_samplePage plain_sampleSource⟩

theorem not_dropMark_eq_of_take {t : Text} (h : (Xml.Source.dropMark t).take 5 ≠ "<?xml".toList)
    (u : Text) : Xml.Source.dropMark t ≠ "<?xml".toList ++ u := by
  intro heq
  rw [heq] at h
  exact h rfl

def returnPayload : Text := "<a\rb=\"x\"/>".toList

def returnSource : Xml.Source :=
  ⟨[], [], none, [.node (.element ⟨none, ['a']⟩ [(⟨none, ['b']⟩, ['x'])] []) []]⟩

theorem parse?_returnPayload : Xml.Source.parse? returnPayload = some returnSource := by
  have helement : Xml.element? returnPayload =
      some ([.startTag ⟨[], ['a']⟩ [(⟨[], ['b']⟩, ['x'])] .empty], []) := by decide +kernel
  have hexpand : Xml.expandAttributes [] Xml.nestingLimit 0 [(⟨[], ['b']⟩, ['x'])] =
      some ([(⟨[], ['b']⟩, ['x'])], 0) :=
    Xml.expandAttributes_escapeAttribute 0 [(⟨[], ['b']⟩, ['x'])]
  have hbuild : Xml.build [] Xml.nestingLimit true
      [.startTag ⟨[], ['a']⟩ [(⟨[], ['b']⟩, ['x'])] .empty] .start =
        some ⟨[], returnSource.content, [], false, 0⟩ := by
    refine (build_of_startTag? hexpand rfl).trans ?_
    rw [Xml.build]
    rfl
  rw [Xml.Source.parse?_of_parts (u := returnPayload) rfl
    (Xml.remarks?_of_startsRemark_eq_false rfl) rfl helement
    (Xml.remarks?_of_startsRemark_eq_false rfl) hbuild rfl rfl rfl]
  rfl

/-- A comment that opens like a document type. -/
def remarkPayload : Text := "<!--<!DOCTYPE --><a/>".toList

def remarkSource : Xml.Source :=
  ⟨"<!--<!DOCTYPE -->".toList, [⟨0, .comment "<!DOCTYPE ".toList⟩], none,
    [.node (.element ⟨none, ['a']⟩ [] []) []]⟩

theorem parse?_remarkPayload : Xml.Source.parse? remarkPayload = some remarkSource := by
  have hbody : Xml.Source.body? remarkPayload = some remarkPayload := rfl
  have hremarks : Xml.remarks? 21 remarkPayload =
      some ([⟨0, .comment "<!DOCTYPE ".toList⟩], "<a/>".toList) := by decide +kernel
  have helement : Xml.element? "<a/>".toList = some ([.startTag ⟨[], ['a']⟩ [] .empty], []) := by
    decide +kernel
  have hbuild : Xml.build [] Xml.nestingLimit true [.startTag ⟨[], ['a']⟩ [] .empty] .start =
      some ⟨[], remarkSource.content, [], false, 0⟩ := by
    refine (build_of_startTag? rfl rfl).trans ?_
    rw [Xml.build]
    rfl
  rw [Xml.Source.parse?_of_parts hbody hremarks rfl helement
    (Xml.remarks?_of_startsRemark_eq_false rfl) hbuild rfl rfl rfl]
  rfl

def emptyPayload : Text := "<a xml:space=\"preserve\"><b><![CDATA[]]></b></a>".toList

def emptySource : Xml.Source :=
  ⟨[], [], none,
    [.node (.element ⟨none, ['a']⟩
        [(⟨some Xml.xmlSpace, "space".toList⟩, "preserve".toList)] [])
      [.node (.element ⟨none, ['b']⟩ [] []) [.node (.text []) []]]]⟩

def hollowPayload : Text := "<a xml:space=\"preserve\"><b></b></a>".toList

def hollowSource : Xml.Source :=
  ⟨[], [], none,
    [.node (.element ⟨none, ['a']⟩
        [(⟨some Xml.xmlSpace, "space".toList⟩, "preserve".toList)] [])
      [.node (.element ⟨none, ['b']⟩ [] []) []]]⟩

theorem expandAttributes_preserve :
    Xml.expandAttributes [] Xml.nestingLimit 0
        [(⟨"xml".toList, "space".toList⟩, "preserve".toList)] =
      some ([(⟨"xml".toList, "space".toList⟩, "preserve".toList)], 0) :=
  Xml.expandAttributes_escapeAttribute 0 [(⟨"xml".toList, "space".toList⟩, "preserve".toList)]

theorem parse?_emptyPayload : Xml.Source.parse? emptyPayload = some emptySource := by
  have helement : Xml.element? emptyPayload =
      some ([.startTag ⟨[], ['a']⟩ [(⟨"xml".toList, "space".toList⟩, "preserve".toList)] .content,
        .startTag ⟨[], ['b']⟩ [] .content, .characters [], .endTag ⟨[], ['b']⟩,
        .endTag ⟨[], ['a']⟩], []) := by decide +kernel
  have hbuild : Xml.build [] Xml.nestingLimit true
      [.startTag ⟨[], ['a']⟩ [(⟨"xml".toList, "space".toList⟩, "preserve".toList)] .content,
        .startTag ⟨[], ['b']⟩ [] .content, .characters [], .endTag ⟨[], ['b']⟩,
        .endTag ⟨[], ['a']⟩] .start = some ⟨[], emptySource.content, [], false, 0⟩ := by
    refine (build_of_startTag? expandAttributes_preserve rfl).trans ?_
    refine (build_of_startTag? rfl rfl).trans ?_
    rw [Xml.build]
    refine (build_of_endTag? rfl).trans ?_
    refine (build_of_endTag? rfl).trans ?_
    rw [Xml.build]
    rfl
  rw [Xml.Source.parse?_of_parts (u := emptyPayload) rfl
    (Xml.remarks?_of_startsRemark_eq_false rfl) rfl helement
    (Xml.remarks?_of_startsRemark_eq_false rfl) hbuild rfl rfl rfl]
  rfl

theorem parse?_hollowPayload : Xml.Source.parse? hollowPayload = some hollowSource := by
  have helement : Xml.element? hollowPayload =
      some ([.startTag ⟨[], ['a']⟩ [(⟨"xml".toList, "space".toList⟩, "preserve".toList)] .content,
        .startTag ⟨[], ['b']⟩ [] .content, .endTag ⟨[], ['b']⟩, .endTag ⟨[], ['a']⟩], []) := by
    decide +kernel
  have hbuild : Xml.build [] Xml.nestingLimit true
      [.startTag ⟨[], ['a']⟩ [(⟨"xml".toList, "space".toList⟩, "preserve".toList)] .content,
        .startTag ⟨[], ['b']⟩ [] .content, .endTag ⟨[], ['b']⟩, .endTag ⟨[], ['a']⟩] .start =
        some ⟨[], hollowSource.content, [], false, 0⟩ := by
    refine (build_of_startTag? expandAttributes_preserve rfl).trans ?_
    refine (build_of_startTag? rfl rfl).trans ?_
    refine (build_of_endTag? rfl).trans ?_
    refine (build_of_endTag? rfl).trans ?_
    rw [Xml.build]
    rfl
  rw [Xml.Source.parse?_of_parts (u := hollowPayload) rfl
    (Xml.remarks?_of_startsRemark_eq_false rfl) rfl helement
    (Xml.remarks?_of_startsRemark_eq_false rfl) hbuild rfl rfl rfl]
  rfl

/-- A payload without an opening that could be taken for a declaration is plain if its content is.
-/
theorem plain_of_content {t : Text} {source : Xml.Source}
    (hopening : (Xml.Source.dropMark t).take 5 ≠ "<?xml".toList) (hdoctype : source.doctype = none)
    (hprolog : source.prolog = []) (hremarks : source.remarks = [])
    (hcontent : Tree.AllOfAll Xml.Node.Plain source.content) : source.Plain t where
  doctype := hdoctype
  prolog := by
    rw [hprolog]
    rfl
  remarks := by
    rw [hremarks]
    exact nofun
  content := hcontent
  declaration := fun u _ hu => absurd hu (not_dropMark_eq_of_take hopening u)

/-- Payloads that are not kept. Without its carriage return a well-formed payload may be
malformed; what looks like a document type in a comment before the root element is written once
more; and an empty text in preformatted content is lost after the formatted payload is formatted
again. -/
theorem xml_fails_beyond_plain :
    (Xml.Source.parse? returnPayload = some returnSource ∧ returnSource.Plain returnPayload ∧
        xml .standard returnPayload = ⟨[], .error .xml⟩) ∧
      (Xml.Source.parse? remarkPayload = some remarkSource ∧ remarkSource.doctype = none ∧
        Tree.AllOfAll Xml.Node.Plain remarkSource.content ∧
        ∃ o, (xml .standard remarkPayload).result.toOption = some o ∧
          Xml.Source.parse? o = none) ∧
      (Xml.Source.parse? emptyPayload = some emptySource ∧ emptySource.Plain emptyPayload ∧
        (xml .standard emptyPayload).result.toOption = some hollowPayload ∧
        (xml .standard hollowPayload).result.toOption ≠ some hollowPayload) := by
  refine ⟨⟨parse?_returnPayload, ?_, ?_⟩, ⟨parse?_remarkPayload, rfl, ?_, ?_⟩,
    parse?_emptyPayload, ?_, ?_, ?_⟩
  · exact plain_of_content (by decide) rfl rfl rfl ⟨⟨rfl, trivial⟩, trivial⟩
  · have hparse : (Xml.Source.parse? (Text.withoutReturns returnPayload)).isNone = true := by
      decide +kernel
    rw [Option.isNone_iff_eq_none] at hparse
    rw [xml, Document.ofXml?, hparse]
    rfl
  · exact ⟨⟨rfl, trivial⟩, trivial⟩
  · refine ⟨"<!--<!DOCTYPE -->\n<!DOCTYPE -->\n<a/>".toList, ?_, ?_⟩
    · have hreturn : Text.withoutReturns remarkPayload = remarkPayload := by decide
      rw [xml, hreturn, Document.ofXml?, parse?_remarkPayload]
      decide +kernel
    · rw [← Option.isNone_iff_eq_none]
      decide +kernel
  · exact plain_of_content (by decide) rfl rfl rfl ⟨⟨rfl, ⟨rfl, ⟨by simp [Xml.Node.Plain], trivial⟩,
      trivial⟩, trivial⟩, trivial⟩
  · have hreturn : Text.withoutReturns emptyPayload = emptyPayload := by decide
    rw [xml, hreturn, Document.ofXml?, parse?_emptyPayload]
    decide +kernel
  · have hreturn : Text.withoutReturns hollowPayload = hollowPayload := by decide
    rw [xml, hreturn, Document.ofXml?, parse?_hollowPayload]
    decide +kernel

end Format

end PrettyPayload
