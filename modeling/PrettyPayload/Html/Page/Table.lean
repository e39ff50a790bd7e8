import PrettyPayload.Html.Page.Body

/-!
# Rules for tables

Inside a table only its parts have a place. Character data between them is collected first: blanks
stay, anything else is put in front of the table, as is every other token that has no place there.
-/

namespace PrettyPayload

namespace Html

namespace Build

/-- Character data between the parts of a table, or in front of it. -/
def charsInTable (token : Token) : Build Step := do
  let page ← get
  if NameSet.ofHtml ["table", "tbody", "tfoot", "thead", "tr"] (page.nameOf page.current) then
    set { page with returnMode := page.mode }
    return .reprocess .inTableText token
  else inBodyFostering token

def endTable : Build Unit := do
  popUntilNamed "table"
  modify fun page => { page with mode := page.fittingMode }

def startInTable (token : Token) (tag : Tag) : Build Step := do
  match tag.name with
  | "caption" =>
    popUntilCurrent ["table", "template", "html"]
    pushMarker
    let _ ← insertFor tag
    setMode .inCaption
    done
  | "colgroup" =>
    popUntilCurrent ["table", "template", "html"]
    let _ ← insertFor tag
    setMode .inColumnGroup
    done
  | "col" =>
    popUntilCurrent ["table", "template", "html"]
    let _ ← insertMissing "colgroup"
    return .reprocess .inColumnGroup token
  | "tbody" | "tfoot" | "thead" =>
    popUntilCurrent ["table", "template", "html"]
    let _ ← insertFor tag
    setMode .inTableBody
    done
  | "td" | "th" | "tr" =>
    popUntilCurrent ["table", "template", "html"]
    let _ ← insertMissing "tbody"
    return .reprocess .inTableBody token
  | "table" =>
    if (← get).inScopeNamed tableScope ["table"] then
      endTable
      return .reprocess (← get).mode token
    else done
  | "style" | "script" | "template" => startInHead tag
  | "input" =>
    if tag.isHidden then
      let _ ← insertVoid tag
      done
    else inBodyFostering token
  | "form" =>
    let page ← get
    if !page.hasOpen "template" && page.form.isNone then
      let h ← insertVoid tag
      modify fun page => { page with form := some h }
    done
  | _ => inBodyFostering token

def inTable (token : Token) : Build Step := do
  match token with
  | .null => charsInTable token
  | .chars _ => charsInTable token
  | .comment t => appendComment t
  | .startTag tag => startInTable token tag
  | .endTag tag =>
    match tag.name with
    | "table" =>
      if (← get).inScopeNamed tableScope ["table"] then endTable
      done
    | "body" | "caption" | "col" | "colgroup" | "html" | "tbody" | "td" | "tfoot" | "th"
    | "thead" | "tr" => done
    | "template" => endTemplate
    | _ => inBodyFostering token
  | .eof => inBody token
  | _ => inBodyFostering token

def inTableText (token : Token) : Build Step := do
  match token with
  | .null => done
  | .chars t =>
    modify fun page => { page with tableText := page.tableText ++ [t] }
    done
  | _ =>
    let page ← get
    set { page with tableText := [] }
    if page.tableText.all fun t => runOf t = .blank then
      page.tableText.forM appendText
    else
      page.tableText.forM fun t => do
        let _ ← inBodyFostering (.chars t)
    return .reprocess page.returnMode token

def inCaption (token : Token) : Build Step := do
  let parts := ["caption", "col", "colgroup", "tbody", "td", "tfoot", "th", "thead", "tr"]
  let close : Build Bool := do
    if (← get).inScopeNamed tableScope ["caption"] then
      closeImplied
      popUntilNamed "caption"
      clearToMarker
      return true
    else return false
  match token with
  | .startTag tag =>
    if parts.contains tag.name then
      if ← close then return .reprocess .inTable token else done
    else inBody token
  | .endTag tag =>
    match tag.name with
    | "caption" =>
      if ← close then setMode .inTable
      done
    | "table" => if ← close then return .reprocess .inTable token else done
    | "body" | "col" | "colgroup" | "html" | "tbody" | "td" | "tfoot" | "th" | "thead"
    | "tr" => done
    | _ => inBody token
  | _ => inBody token

def inColumnGroup (token : Token) : Build Step := do
  let close : Build Step := do
    if (← get).currentIs "colgroup" then
      pop
      return .reprocess .inTable token
    else done
  match token with
  | .chars t =>
    match runOf t with
    | .mixed => return .split t
    | .blank => appendText t; done
    | .solid => close
  | .comment t => appendComment t
  | .startTag tag =>
    match tag.name with
    | "html" => mergeRoot tag
    | "col" =>
      let _ ← insertVoid tag
      done
    | "template" => startTemplate tag
    | _ => close
  | .endTag tag =>
    match tag.name with
    | "colgroup" =>
      if (← get).currentIs "colgroup" then
        pop
        setMode .inTable
      done
    | "col" => done
    | "template" => endTemplate
    | _ => close
  | .eof => inBody token
  | _ => close

def clearToBody : Build Unit := popUntilCurrent ["tbody", "tfoot", "thead", "template", "html"]

def inTableBody (token : Token) : Build Step := do
  let close : Build Step := do
    if (← get).inScopeNamed tableScope ["table", "tbody", "tfoot"] then
      clearToBody
      pop
      return .reprocess .inTable token
    else done
  match token with
  | .startTag tag =>
    match tag.name with
    | "tr" =>
      clearToBody
      let _ ← insertFor tag
      setMode .inRow
      done
    | "th" | "td" =>
      clearToBody
      let _ ← insertMissing "tr"
      return .reprocess .inRow token
    | "caption" | "col" | "colgroup" | "tbody" | "tfoot" | "thead" => close
    | _ => inTable token
  | .endTag tag =>
    match tag.name with
    | "tbody" | "tfoot" | "thead" =>
      if (← get).inScopeNamed tableScope [tag.name] then
        clearToBody
        pop
        setMode .inTable
      done
    | "table" => close
    | "body" | "caption" | "col" | "colgroup" | "html" | "td" | "th" | "tr" => done
    | _ => inTable token
  | _ => inTable token

def closeRow : Build Bool := do
  if (← get).inScopeNamed tableScope ["tr"] then
    popUntilCurrent ["tr", "template", "html"]
    pop
    return true
  else return false

def inRow (token : Token) : Build Step := do
  match token with
  | .startTag tag =>
    match tag.name with
    | "th" | "td" =>
      popUntilCurrent ["tr", "template", "html"]
      let _ ← insertFor tag
      setMode .inCell
      pushMarker
      done
    | "caption" | "col" | "colgroup" | "tbody" | "tfoot" | "thead" | "tr" =>
      if ← closeRow then return .reprocess .inTableBody token else done
    | _ => inTable token
  | .endTag tag =>
    match tag.name with
    | "tr" =>
      if ← closeRow then setMode .inTableBody
      done
    | "table" => if ← closeRow then return .reprocess .inTableBody token else done
    | "tbody" | "tfoot" | "thead" =>
      if (← get).inScopeNamed tableScope [tag.name] then
        if ← closeRow then return .reprocess .inTableBody token else done
      else done
    | "body" | "caption" | "col" | "colgroup" | "html" | "td" | "th" => done
    | _ => inTable token
  | _ => inTable token

def closeCell : Build Unit := do
  closeImplied
  popUntil (NameSet.ofHtml ["td", "th"])
  clearToMarker

def inCell (token : Token) : Build Step := do
  match token with
  | .startTag tag =>
    match tag.name with
    | "caption" | "col" | "colgroup" | "tbody" | "td" | "tfoot" | "th" | "thead" | "tr" =>
      if (← get).inScopeNamed tableScope ["td", "th"] then
        closeCell
        return .reprocess .inRow token
      else done
    | _ => inBody token
  | .endTag tag =>
    match tag.name with
    | "td" | "th" =>
      if (← get).inScopeNamed tableScope [tag.name] then
        closeImplied
        popUntilNamed tag.name
        clearToMarker
        setMode .inRow
      done
    | "body" | "caption" | "col" | "colgroup" | "html" => done
    | "table" | "tbody" | "tfoot" | "thead" | "tr" =>
      if (← get).inScopeNamed tableScope [tag.name] then
        closeCell
        return .reprocess .inRow token
      else done
    | _ => inBody token
  | _ => inBody token

end Build

end Html

end PrettyPayload
