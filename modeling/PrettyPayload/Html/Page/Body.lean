import PrettyPayload.Html.Page.Formatting

/-!
# Rules for the head and the body of a page

`inHead` and `inBody` say what a token does in the head and in the body; the other modes fall back
on them for what they have no rule for. `inTemplateEof` closes the templates that the text ends
in.
-/

namespace PrettyPayload

namespace Html

namespace Build

/-- Character data of one sort, or of both. -/
inductive Run where
  | blank
  | solid
  | mixed
  deriving DecidableEq, Repr

def runOf (t : Text) : Run :=
  if t.all isSpace then .blank else if t.any isSpace then .mixed else .solid

/-! ## The head -/

def startTemplate (tag : Tag) : Build Step := do
  let _ ← insertFor tag
  pushMarker
  modify fun page =>
    { page with
      framesetOk := false, mode := .inTemplate, templateModes := .inTemplate :: page.templateModes }
  done

def leaveTemplate : Build Unit := do
  popUntilNamed "template"
  clearToMarker
  modify fun page => { page with templateModes := page.templateModes.drop 1 }
  modify fun page => { page with mode := page.fittingMode }

def endTemplate : Build Step := do
  if (← get).hasOpen "template" then
    popWhile thoroughImpliedEnd
    leaveTemplate
  done

def startInHead (tag : Tag) : Build Step := do
  match tag.name with
  | "title" => insertRaw tag (.rcdata "title")
  | "noframes" | "style" | "noscript" => insertRaw tag (.rawtext tag.name)
  | "script" => insertRaw tag .script
  | "template" => startTemplate tag
  | _ =>
    let _ ← insertVoid tag
    done

/-- The head ends where something comes that does not belong into it. -/
def closeHead (token : Token) : Build Step := do
  pop
  return .reprocess .afterHead token

def inHead (token : Token) : Build Step := do
  match token with
  | .chars t =>
    match runOf t with
    | .mixed => return .split t
    | .blank => appendText t; done
    | .solid => closeHead token
  | .comment t => appendComment t
  | .startTag tag =>
    if tag.name = "html" then mergeRoot tag
    else if tag.name = "head" then done
    else if headTags.contains tag.name ∨ tag.name = "noscript" then startInHead tag
    else closeHead token
  | .endTag tag =>
    match tag.name with
    | "head" => pop; setMode .afterHead; done
    | "body" | "html" | "br" => closeHead token
    | "template" => endTemplate
    | _ => done
  | _ => closeHead token

def inTemplateEof : Build Step := do
  if !(← get).hasOpen "template" then done
  else
    leaveTemplate
    return .reprocess (← get).fittingMode .eof

/-! ## Start tags in the body -/

/-- The start of a list item or of an entry in a list of definitions: an open one of the same sort
is closed. -/
def openItem (page : Page) (names : List String) : List Nat → Option String
  | [] => none
  | h :: outer =>
    let name := page.nameOf h
    if NameSet.ofHtml names name then some name.localName
    else if isSpecial name && !NameSet.ofHtml ["address", "div", "p"] name then none
    else openItem page names outer

def startItem (tag : Tag) : Build Step := do
  refuseFrameset
  let page ← get
  let names := if tag.name = "li" then ["li"] else ["dd", "dt"]
  match openItem page names page.stack.toList.reverse with
  | some name =>
    closeImpliedExcept name
    popUntilNamed name
  | none => pure ()
  closeParagraphInScope
  let _ ← insertFor tag
  done

def startVoid (tag : Tag) : Build Step := do
  reconstruct
  let _ ← insertVoid tag
  if !(tag.name = "input" && tag.isHidden) then refuseFrameset
  done

def startForm (tag : Tag) : Build Step := do
  let page ← get
  let inTemplate := page.hasOpen "template"
  if page.form.isNone || inTemplate then
    closeParagraphInScope
    let h ← insertFor tag
    if !inTemplate then modify fun page => { page with form := some h }
  done

def startForeign (space : Space) (tag : Tag) : Build Step := do
  let tag := foreignAttributes space tag
  let name : Name := ⟨space, tag.name⟩
  let _ ← if tag.selfClosing then insertClosed name tag.attributes
    else insertOpen name tag.attributes
  done

def startFrameset (tag : Tag) : Build Step := do
  let page ← get
  match page.body? with
  | some body =>
    if page.framesetOk then
      onForest fun f => f.detach body
      modify fun page => { page with stack := page.stack.extract 0 1 }
      let _ ← insertFor tag
      setMode .inFrameset
  | none => pure ()
  done

def selectMode : Mode → Mode
  | .inTable | .inCaption | .inTableBody | .inRow | .inCell => .inSelectInTable
  | _ => .inSelect

def startBlock (tag : Tag) : Build Unit := do
  closeParagraphInScope
  let _ ← insertFor tag

def startInBody (tag : Tag) : Build Step := do
  let name := tag.name
  if blockTags.contains name then
    startBlock tag
    done
  else if formattingTags.contains name then
    reconstruct
    insertFormatting tag
    done
  else if headTags.contains name then startInHead tag
  else if headings.contains name then
    closeParagraphInScope
    let page ← get
    if NameSet.ofHtml headings (page.nameOf page.current) then pop
    let _ ← insertFor tag
    done
  else
    match name with
    | "html" => mergeRoot tag
    | "body" =>
      let page ← get
      match page.body? with
      | some body =>
        if !page.hasOpen "template" then
          refuseFrameset
          onForest fun f => f.addAttributes body tag.attributes
      | none => pure ()
      done
    | "frameset" => startFrameset tag
    | "pre" | "listing" =>
      startBlock tag
      modify fun page => { page with skipLineFeed := true, framesetOk := false }
      done
    | "form" => startForm tag
    | "li" | "dd" | "dt" => startItem tag
    | "plaintext" =>
      startBlock tag
      return .content .plaintext
    | "button" =>
      if (← get).inScopeNamed defaultScope ["button"] then
        closeImplied
        popUntilNamed "button"
      reconstruct
      let _ ← insertFor tag
      refuseFrameset
      done
    | "a" =>
      closeOuterLink
      reconstruct
      insertFormatting tag
      done
    | "nobr" =>
      reconstruct
      if (← get).inScopeNamed defaultScope ["nobr"] then
        adopt "nobr"
        reconstruct
      insertFormatting tag
      done
    | "applet" | "marquee" | "object" =>
      reconstruct
      let _ ← insertFor tag
      pushMarker
      refuseFrameset
      done
    | "table" =>
      if !(← get).oldPage then closeParagraphInScope
      let _ ← insertFor tag
      refuseFrameset
      setMode .inTable
      done
    | "area" | "br" | "embed" | "img" | "keygen" | "wbr" | "input" => startVoid tag
    | "param" | "source" | "track" =>
      let _ ← insertVoid tag
      done
    | "hr" =>
      closeParagraphInScope
      let _ ← insertVoid tag
      refuseFrameset
      done
    | "image" => startVoid { tag with name := "img" }
    | "textarea" =>
      modify fun page => { page with skipLineFeed := true, framesetOk := false }
      insertRaw tag (.rcdata "textarea")
    | "xmp" =>
      closeParagraphInScope
      reconstruct
      refuseFrameset
      insertRaw tag (.rawtext "xmp")
    | "iframe" =>
      refuseFrameset
      insertRaw tag (.rawtext "iframe")
    | "noembed" => insertRaw tag (.rawtext "noembed")
    | "noscript" => insertRaw tag (.rawtext "noscript")
    | "select" =>
      reconstruct
      let _ ← insertFor tag
      refuseFrameset
      modify fun page => { page with mode := selectMode page.mode }
      done
    | "optgroup" | "option" =>
      if (← get).currentIs "option" then pop
      reconstruct
      let _ ← insertFor tag
      done
    | "rb" | "rtc" =>
      if (← get).inScopeNamed defaultScope ["ruby"] then closeImplied
      let _ ← insertFor tag
      done
    | "rp" | "rt" =>
      if (← get).inScopeNamed defaultScope ["ruby"] then closeImpliedExcept "rtc"
      let _ ← insertFor tag
      done
    | "math" => startForeign .mathml tag
    | "svg" => startForeign .svg tag
    | "caption" | "col" | "colgroup" | "frame" | "head" | "tbody" | "td" | "tfoot" | "th"
    | "thead" | "tr" => done
    | _ =>
      reconstruct
      let _ ← insertFor tag
      done

/-! ## End tags in the body -/

def endForm : Build Step := do
  let page ← get
  if page.hasOpen "template" then
    if page.inScopeNamed defaultScope ["form"] then
      closeImplied
      popUntilNamed "form"
  else
    modify fun page => { page with form := none }
    match page.form with
    | some h =>
      if page.inScope defaultScope (· = h) then
        closeImplied
        removeFromStack h
    | none => pure ()
  done

def endInScope (name : String) : Build Bool := do
  if (← get).inScopeNamed defaultScope [name] then
    closeImplied
    popUntilNamed name
    return true
  else return false

def endInBody (token : Token) (name : String) : Build Step := do
  if closingBlockTags.contains name then
    let _ ← endInScope name
    done
  else if formattingTags.contains name ∨ name = "a" ∨ name = "nobr" then
    adopt name
    done
  else if headings.contains name then
    if (← get).inScopeNamed defaultScope headings then
      closeImplied
      popUntil (NameSet.ofHtml headings)
    done
  else
    match name with
    | "template" => endTemplate
    | "body" =>
      if (← get).inScopeNamed defaultScope ["body"] then setMode .afterBody
      done
    | "html" =>
      if (← get).inScopeNamed defaultScope ["body"] then return .reprocess .afterBody token
      else done
    | "form" => endForm
    | "p" =>
      if !(← get).inScopeNamed buttonScope ["p"] then
        let _ ← insertMissing "p"
      closeParagraph
      done
    | "li" | "dd" | "dt" =>
      let scope := if name = "li" then listItemScope else defaultScope
      if (← get).inScopeNamed scope [name] then
        closeImpliedExcept name
        popUntilNamed name
      done
    | "applet" | "marquee" | "object" =>
      if ← endInScope name then clearToMarker
      done
    | "br" => startVoid (Tag.plain "br")
    | _ =>
      endOther name
      done

def inBody (token : Token) : Build Step := do
  match token with
  | .chars t =>
    reconstruct
    if runOf t ≠ .blank then refuseFrameset
    appendText t
    done
  | .comment t => appendComment t
  | .startTag tag => startInBody tag
  | .endTag tag => endInBody token tag.name
  | .eof => if (← get).templateModes.isEmpty then done else inTemplateEof
  | _ => done

/-- The rules for the body, with what does not belong into a table put in front of it. -/
def inBodyFostering (token : Token) : Build Step := do
  modify fun page => { page with fostering := true, misplaced := page.misplaced + 1 }
  let step ← inBody token
  modify fun page => { page with fostering := false }
  return step

end Build

end Html

end PrettyPayload
