import Autodoc.Filter.Parser

namespace Autodoc.Filter

def preludeText : String := "
def not: if . then false else true end;
def select(f): if f then . else empty end;
def recurse(f): def rec: ., (f | rec); rec;
def recurse(f; cond): recurse(f | select(cond));
def recurse: recurse(.[]?);
def repeat(f): def rec: ., (f | rec); rec;
def while(cond; f): def rec: if cond then ., (f | rec) else empty end; rec;
def until(cond; f): def rec: if cond then . else f | rec end; rec;
def range(from; to): range(from; to; 1);
def range(to): range(0; to; 1);
def nan: 0 / 0;
def infinite: 1 / 0;
def isnan: . < nan and nan < .;
def isinfinite: . == infinite or . == -infinite;
def isnormal: isnumber and ((. == 0 or isnan or isinfinite) | not);
def isboolean: type == \"boolean\";
def isnumber: type == \"number\";
def isstring: type == \"string\";
def isarray: type == \"array\";
def isobject: type == \"object\";
def values: select(. != null);
def nulls: select(. == null);
def booleans: select(isboolean);
def numbers: select(isnumber);
def strings: select(isstring);
def arrays: select(isarray);
def objects: select(isobject);
def iterables: select(isarray or isobject);
def scalars: select((isarray or isobject) | not);
def finites: select(isnumber and ((isnan or isinfinite) | not));
def normals: select(isnormal);
def error(f): f | error;
def debug: .;
def debug(f): .;
def stderr: .;
def inputs: empty;
def input: first(inputs);
def input_filename: null;
def isempty(f): first((f | false), true);
def isvalid(f): try (f | true) catch false;
def any(f; cond): isempty(first(f | cond or empty)) | not;
def any(cond): any(.[]; cond);
def any: any(.);
def all(f; cond): isempty(first(f | cond and empty));
def all(cond): all(.[]; cond);
def all: all(.);
def add(f): reduce f as $x (null; . + $x);
def add: add(.[]);
def map(f): [.[] | f];
def map_values(f): .[] |= f;
def first: .[0];
def last: .[-1];
def nth($n): .[$n];
def nth($n; f): first(skip($n; f));
def keys: keys_unsorted | sort;
def to_entries: [keys_unsorted[] as $k | \x7bkey: $k, value: .[$k]\x7d];
def from_entries: map(\x7b(.key): .value\x7d) | add + \x7b\x7d;
def with_entries(f): to_entries | map(f) | from_entries;
def in(f): . as $x | f | has($x);
def inside(f): . as $x | f | contains($x);
def index($x): indices($x)[0];
def rindex($x): indices($x)[-1];
def sort: sort_by(.);
def unique_by(f): [group_by(f)[] | .[0]];
def unique: unique_by(.);
def min: min_by(.);
def max: max_by(.);
def join(sep): .[:-1][] += sep | add;
def flatten($depth): reduce .[] as $x
  ([]; if ($x | isarray) and $depth > 0 then . + ($x | flatten($depth - 1)) else . + [$x] end);
def flatten: [recurse(arrays[]) | select(isarray | not)];
def transpose: [range(0; map(length) | max // 0) as $i | [.[][$i]]];
def combinations: if length == 0 then [] else .[0][] as $x | (.[1:] | combinations) as $w | [$x] + $w end;
def combinations(n): . as $dot | [range(n)] | map($dot) | combinations;
def walk(f): def rec: (.[]? |= rec) | f; rec;
def paths: skip(1; path(..));
def paths(f): path(.. | select(f)) | select(length > 0);
def leaf_paths: paths(scalars);
def setpath($path; $value): getpath($path) = $value;
def delpaths($paths): reduce ($paths | sort | reverse)[] as $p (.; getpath($p) |= empty);
def del(f): delpaths([path(f)]);
def tostream: path(def rec: (.[]? | rec), .; rec) as $p
  | getpath($p) | reduce path(.[]?) as $q ([$p, .]; [$p + $q]);
def abs: if . < 0 then -. else . end;
def toarray: if isarray then . else [.] end;
def tonumber: if isnumber then . else fromjson end;
def ascii: [.] | implode;
def named_groups: map(select(.name) | \x7b(.name): .string\x7d) | add + \x7b\x7d;
def test(re; flags): matches(re; flags) | length > 0;
def test(re): test(re; \"\");
def match(re; flags): matches(re; flags)[] | .[0] + \x7bcaptures: .[1:]\x7d;
def match(re): match(re; \"\");
def capture(re; flags): matches(re; flags)[] | named_groups;
def capture(re): capture(re; \"\");
def scan(re; flags): matches(re; \"g\" + flags)[] | .[0].string;
def scan(re): scan(re; \"\");
def split(re; flags): split_(re; flags + \"g\");
def splits(re; flags): split(re; flags)[];
def splits(re): splits(re; \"\");
def sub(re; f; flags): reduce split_matches(re; flags)[] as $x
  (\"\"; . + if $x | isstring then $x else $x | named_groups | f end);
def sub(re; f): sub(re; f; \"\");
def gsub(re; f; flags): sub(re; f; \"g\" + flags);
def gsub(re; f): gsub(re; f; \"\");
"

def prelude : List Definition := (definitionsOfText? preludeText).getD []

end Autodoc.Filter
