import Autodoc.Config

namespace Autodoc

namespace HeaderConfig

def licenseLines : List String :=
  ["Permission is hereby granted, free of charge, to any person obtaining",
    "a copy of this software and associated documentation files (the",
    "\"Software\"), to deal in the Software without restriction, including",
    "without limitation the rights to use, copy, modify, merge, publish,",
    "distribute, sublicense, and/or sell copies of the Software, and to",
    "permit persons to whom the Software is furnished to do so, subject to",
    "the following conditions:",
    "",
    "The above copyright notice and this permission notice shall be",
    "included in all copies or substantial portions of the Software.",
    "",
    "THE SOFTWARE IS PROVIDED \"AS IS\", WITHOUT WARRANTY OF ANY KIND,",
    "EXPRESS OR IMPLIED, INCLUDING BUT NOT LIMITED TO THE WARRANTIES OF",
    "MERCHANTABILITY, FITNESS FOR A PARTICULAR PURPOSE AND",
    "NONINFRINGEMENT. IN NO EVENT SHALL THE AUTHORS OR COPYRIGHT HOLDERS BE",
    "LIABLE FOR ANY CLAIM, DAMAGES OR OTHER LIABILITY, WHETHER IN AN ACTION",
    "OF CONTRACT, TORT OR OTHERWISE, ARISING FROM, OUT OF OR IN CONNECTION",
    "WITH THE SOFTWARE OR THE USE OR OTHER DEALINGS IN THE SOFTWARE."]

/-- A line of a doc comment; an empty one has no blank at its end. -/
def docLine (text : String) : String := if text.isEmpty then " *\n" else " * " ++ text ++ "\n"

def tagLine (tag value : String) : String :=
  " * @" ++ tag ++ "".pushn ' ' (9 - tag.length) ++ " " ++ value ++ "\n"

def holder (h : HeaderConfig) : String := h.copyrightYear ++ " " ++ h.copyrightHolder

def classTags (h : HeaderConfig) (package : String) : String :=
  tagLine "category" h.category ++ tagLine "package" package ++ tagLine "author" h.author
    ++ tagLine "copyright" h.holder ++ tagLine "license" h.license ++ tagLine "link" h.link

def preamble (h : HeaderConfig) (package : String) : String :=
  "<?php\n\n/**\n"
    ++ " * This file was generated automatically. Do not edit!\n *\n"
    ++ " * PHP version " ++ h.phpVersion ++ "\n *\n"
    ++ " * LICENSE:\n *\n"
    ++ " * Copyright (c) " ++ h.holder ++ "\n *\n"
    ++ String.join (licenseLines.map docLine)
    ++ " *\n" ++ h.classTags package ++ " */\n"

end HeaderConfig

end Autodoc
