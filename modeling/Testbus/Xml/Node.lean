import Testbus.Environ
import Testbus.Libc

namespace Testbus.Xml

open Testbus.Environ

/-- `struct xml_node`, with the line of its location. -/
inductive Node
  | mk (name : Option CString) (attrs : List NiVar) (cdata : Option CString)
      (children : List Node) (line : Option UInt32)

namespace Node

def name : Node → Option CString | mk name _ _ _ _ => name

def attrs : Node → List NiVar | mk _ attrs _ _ _ => attrs

def cdata : Node → Option CString | mk _ _ cdata _ _ => cdata

def children : Node → List Node | mk _ _ _ children _ => children

def line : Node → Option UInt32 | mk _ _ _ _ line => line

/-- `xml_node_new`, without the link to a parent. -/
def new (name : Option CString) : Node := mk name [] none [] none

def setLocation (line : UInt32) : Node → Node
  | mk name attrs cdata children _ => mk name attrs cdata children (some line)

def setChildren (children : List Node) : Node → Node
  | mk name attrs cdata _ line => mk name attrs cdata children line

def setCdata (cdata : Option CString) : Node → Node
  | mk name attrs _ children line => mk name attrs cdata children line

def addAttr (attr : CString) (value : Option CString) : Node → Node
  | mk name attrs cdata children line => mk name (niVarArraySet attrs attr value) cdata children line

def addChild : Node → Node → Node
  | mk name attrs cdata children line, child => mk name attrs cdata (children ++ [child]) line

def getAttr (node : Node) (attr : CString) : Option CString :=
  (niVarArrayGet node.attrs attr).bind NiVar.value

/-- The tree without the places that it was read from. -/
def unlocated : Node → Node
  | mk name attrs cdata children _ =>
    mk name attrs cdata (children.map unlocated) none

end Node

end Testbus.Xml
